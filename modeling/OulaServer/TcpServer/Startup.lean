import OulaServer.Lib.Potential

/-!
# Starting the server

`TcpServer::start`, with `EventLoopThreadPool::start`, `EventLoopThread::startLoop` and `threadFunc`, and
`Acceptor::listen`, as a step relation of the main thread and the pool's threads. Each `EventLoopThread` has its own
mutex and condition variable; `wait` evaluates its predicate with the mutex held, and releases the mutex and blocks in
one step. The constructor of `EventLoop` numbers the loops by a static counter that is not protected: the load and the
store of its increment are two steps.

The main thread waits for each thread before it starts the next. `Ready` says what follows of a state in which it
listens; `Inv` says where each thread is while it waits. `loop()` does not return, as nothing sets `quit_`.
-/

namespace OulaServer

namespace Startup

open Run

/-- Where the main thread stands, and at which thread. -/
inductive Main where
  -- before the call of `start`
  | idle
  -- at the head of the loop in `EventLoopThreadPool::start`
  | spawning (i : Nat)
  -- in `startLoop`: at the `unique_lock`, in `cond_.wait`, and after it
  | locking (i : Nat)
  | checking (i : Nat)
  | blocking (i : Nat)
  | blocked (i : Nat)
  | notified (i : Nat)
  | taking (i : Nat)
  -- `EventLoopThreadPool::start` returned
  | starting
  | listening
  deriving DecidableEq, Repr

/-- Where a thread of the pool stands in `threadFunc`. -/
inductive Pc where
  -- no thread yet
  | absent
  -- in the constructor of `EventLoop`: before `loopIdx_ = loopNextIdx_`, at the load and the store of `loopNextIdx_++`
  | constructing
  | loading
  | storing (loaded : Nat)
  -- before `callback_`
  | callback
  | locking
  -- holds the mutex, before `loop_ = &ioLoop` and after `notify_one`
  | publishing
  | unlocking
  -- in `ioLoop.loop()`
  | looping
  deriving DecidableEq, Repr

/-- Who holds a mutex. -/
inductive Party where
  | main
  | thread
  deriving DecidableEq, Repr

/-- An `EventLoopThread` with its thread and the loop on the thread's stack. -/
structure Thread where
  pc : Pc
  mutex : Option Party
  /-- `loop_` is set. -/
  loop : Bool
  /-- `loopIdx_` of the loop. -/
  loopIdx : Option Nat
  deriving DecidableEq, Repr

structure State where
  numThreads : Nat
  /-- Whether there is a `ThreadInitCallback`. -/
  hasCallback : Bool
  main : Main
  bStartd : Bool
  threads : Nat → Thread
  /-- `loops_`, by the thread. -/
  loops : List Nat
  /-- The loops that the callback was called with; `none` is the base loop. -/
  inits : List (Option Nat)
  /-- `EventLoop::loopNextIdx_`. -/
  loopNextIdx : Nat
  isListening : Bool

inductive Event where
  -- the main thread
  | start
  | spawn
  | endLoop
  | mainLock
  | mainCheck
  | mainBlock
  | mainWakeup
  | mainTake
  | listen
  -- a thread
  | construct (i : Nat)
  | load (i : Nat)
  | store (i : Nat)
  | callback (i : Nat)
  | lock (i : Nat)
  | publish (i : Nat)
  | unlock (i : Nat)
  deriving DecidableEq, Repr

/-- The assertions on the way. -/
inductive Failure where
  -- `assert(!bStartd_)`
  | bStartd
  -- `baseloop_->assertInLoopThread()`
  | assertInLoopThread
  -- `assert(!thread_)`
  | thread
  -- `assert(!acceptor_->isListening())`
  | isListening
  deriving DecidableEq, Repr

def absent : Thread := ⟨.absent, none, false, none⟩

/-- A server with `n` threads; its base loop has the index before `loopNextIdx`. -/
def init (n : Nat) (hasCallback : Bool) (loopNextIdx : Nat) : State where
  numThreads := n
  hasCallback := hasCallback
  main := .idle
  bStartd := false
  threads _ := absent
  loops := []
  inits := []
  loopNextIdx := loopNextIdx
  isListening := false

namespace State

def setThread (s : State) (i : Nat) (t : Thread) : State := { s with threads := Function.update s.threads i t }

/-- The thread moves on in `threadFunc`. -/
def setPc (s : State) (i : Nat) (pc : Pc) : State := s.setThread i { s.threads i with pc }

def setMutex (s : State) (i : Nat) (mutex : Option Party) : State := s.setThread i { s.threads i with mutex }

/-- The callback is called if it is set. -/
def callInit (s : State) (loop : Option Nat) : State :=
  { s with inits := if s.hasCallback then s.inits ++ [loop] else s.inits }

end State

/-- `notify_one` on the condition variable of thread `i`. -/
def Main.notify (m : Main) (i : Nat) : Main := if m = .blocked i then .notified i else m

/-- `EventLoopThreadPool::start` up to its loop. -/
def State.startPool (s : State) (inLoop : Bool) : Except Failure State :=
  if s.bStartd then .error .bStartd
  else if inLoop then .ok { s with bStartd := true, main := .spawning 0 }
  else .error .assertInLoopThread

/-- The main thread is the one that constructed the base loop. -/
def step (s : State) : Event → Except Failure State
  | .start => s.startPool true
  | .spawn =>
      match s.main with
      | .spawning i =>
          if (s.threads i).pc = .absent then .ok { s.setPc i .constructing with main := .locking i }
          else .error .thread
      | _ => .ok s
  | .endLoop =>
      let s := { s with main := .starting }
      .ok (if s.numThreads = 0 then s.callInit none else s)
  | .mainLock =>
      match s.main with
      | .locking i | .notified i => .ok { s.setMutex i (some .main) with main := .checking i }
      | _ => .ok s
  | .mainCheck =>
      match s.main with
      | .checking i => .ok { s with main := if (s.threads i).loop then .taking i else .blocking i }
      | _ => .ok s
  | .mainBlock =>
      match s.main with
      | .blocking i => .ok { s.setMutex i none with main := .blocked i }
      | _ => .ok s
  | .mainWakeup =>
      match s.main with
      | .blocked i => .ok { s with main := .notified i }
      | _ => .ok s
  | .mainTake =>
      match s.main with
      | .taking i => .ok { s.setMutex i none with loops := s.loops ++ [i], main := .spawning (i + 1) }
      | _ => .ok s
  | .listen => if s.isListening then .error .isListening else .ok { s with isListening := true, main := .listening }
  | .construct i =>
      .ok (s.setThread i { s.threads i with pc := .loading, loopIdx := some s.loopNextIdx })
  | .load i => .ok (s.setPc i (.storing s.loopNextIdx))
  | .store i =>
      match (s.threads i).pc with
      | .storing loaded => .ok { s.setPc i .callback with loopNextIdx := loaded + 1 }
      | _ => .ok s
  | .callback i => .ok ((s.setPc i .locking).callInit (some i))
  | .lock i => .ok (s.setThread i { s.threads i with pc := .publishing, mutex := some .thread })
  | .publish i =>
      .ok { s.setThread i { s.threads i with pc := .unlocking, loop := true } with main := s.main.notify i }
  | .unlock i => .ok (s.setThread i { s.threads i with pc := .looping, mutex := none })

/-- When each step can be taken. `start` is called once. -/
def Enabled (s : State) : Event → Prop
  | .start => s.main = .idle
  | .spawn => ∃ i < s.numThreads, s.main = .spawning i
  | .endLoop => ∃ i, s.main = .spawning i ∧ ¬ i < s.numThreads
  | .mainLock => ∃ i, (s.main = .locking i ∨ s.main = .notified i) ∧ (s.threads i).mutex = none
  | .mainCheck => ∃ i, s.main = .checking i
  | .mainBlock => ∃ i, s.main = .blocking i
  | .mainWakeup => ∃ i, s.main = .blocked i
  | .mainTake => ∃ i, s.main = .taking i
  | .listen => s.main = .starting
  | .construct i => (s.threads i).pc = .constructing
  | .load i => (s.threads i).pc = .loading
  | .store i => ∃ loaded, (s.threads i).pc = .storing loaded
  | .callback i => (s.threads i).pc = .callback
  | .lock i => (s.threads i).pc = .locking ∧ (s.threads i).mutex = none
  | .publish i => (s.threads i).pc = .publishing
  | .unlock i => (s.threads i).pc = .unlocking

/-- The main thread listens: the pool has the loop of every thread, in order, each with its own index, running, and
after the callback. -/
structure Ready (base : Nat) (s : State) : Prop where
  loops : s.loops = List.range s.numThreads
  thread : ∀ i < s.numThreads, s.threads i = ⟨.looping, none, true, some (base + i)⟩
  callback : s.inits = if s.hasCallback then
    if s.numThreads = 0 then [none] else (List.range s.numThreads).map some else []
  loopNextIdx : s.loopNextIdx = base + s.numThreads

/-! ### The invariant -/

namespace Main

/-- The main thread waits for thread `i`. -/
def At (i : Nat) : Main → Prop
  | locking j | checking j | blocking j | blocked j | notified j | taking j => j = i
  | idle | spawning _ | starting | listening => False

/-- The number of threads that it has started, without the one that it waits for. -/
def index (n : Nat) : Main → Nat
  | idle => 0
  | spawning i | locking i | checking i | blocking i | blocked i | notified i | taking i => i
  | starting | listening => n

/-- The pool has started. -/
def started : Main → Bool
  | starting | listening => true
  | _ => false

/-- The main thread holds the mutex of thread `i`. -/
def holds (i : Nat) : Main → Bool
  | checking j | blocking j | taking j => j == i
  | _ => false

theorem At.index {m : Main} {i : Nat} (h : m.At i) (n : Nat) : m.index n = i := by
  cases m <;> first | exact h | exact h.elim

theorem At.started {m : Main} {i : Nat} (h : m.At i) : m.started = false := by
  cases m <;> first | rfl | exact h.elim

theorem At.holds {m : Main} {i j : Nat} (h : m.At i) (hne : j ≠ i) : m.holds j = false := by
  cases m with
  | checking k => cases h; exact beq_eq_false_iff_ne.mpr hne.symm
  | blocking k => cases h; exact beq_eq_false_iff_ne.mpr hne.symm
  | taking k => cases h; exact beq_eq_false_iff_ne.mpr hne.symm
  | _ => rfl

theorem holds_of_not_at {m : Main} (h : ¬ ∃ i, m.At i) (j : Nat) : m.holds j = false := by
  cases m with
  | checking k => exact absurd ⟨k, rfl⟩ h
  | blocking k => exact absurd ⟨k, rfl⟩ h
  | taking k => exact absurd ⟨k, rfl⟩ h
  | _ => rfl

end Main

namespace Pc

/-- `loopIdx_` is set. -/
def numbered : Pc → Bool
  | absent | constructing => false
  | _ => true

/-- The constructor of `EventLoop` returned. -/
def counted : Pc → Bool
  | absent | constructing | loading | storing _ => false
  | _ => true

/-- The callback returned. -/
def called : Pc → Bool
  | locking | publishing | unlocking | looping => true
  | _ => false

def published : Pc → Bool
  | unlocking | looping => true
  | _ => false

def holds : Pc → Bool
  | publishing | unlocking => true
  | _ => false

end Pc

/-- The fields of a thread, by where it stands and whether the main thread holds its mutex. -/
structure Thread.Consistent (t : Thread) (base i : Nat) (held : Bool) : Prop where
  loop : t.loop = t.pc.published
  loopIdx : t.loopIdx = if t.pc.numbered then some (base + i) else none
  storing : ∀ loaded, t.pc = .storing loaded → loaded = base + i
  mutex : t.mutex = if t.pc.holds then some .thread else if held then some .main else none
  exclusive : t.pc.holds = true → held = false

/-- The calls of the callback so far. -/
def State.expectedInits (s : State) : List (Option Nat) :=
  if s.hasCallback then
    if s.main.started ∧ s.numThreads = 0 then [none]
    else (List.range (s.main.index s.numThreads +
      (s.threads (s.main.index s.numThreads)).pc.called.toNat)).map some
  else []

structure Inv (base : Nat) (s : State) : Prop where
  bound : s.main.index s.numThreads ≤ s.numThreads
  room : ∀ i, s.main.At i → i < s.numThreads
  past : ∀ j < s.main.index s.numThreads, (s.threads j).pc = .looping
  future : ∀ j, s.main.index s.numThreads < j → (s.threads j).pc = .absent
  current : (s.threads (s.main.index s.numThreads)).pc = .absent ↔ ¬ ∃ i, s.main.At i
  consistent : ∀ j, (s.threads j).Consistent base j (s.main.holds j)
  next : s.loopNextIdx = base + s.main.index s.numThreads +
    (s.threads (s.main.index s.numThreads)).pc.counted.toNat
  inits : s.inits = s.expectedInits
  waits : ∀ i, s.main = .blocking i ∨ s.main = .blocked i → (s.threads i).pc.published = false
  takes : ∀ i, s.main = .taking i → (s.threads i).pc.published = true
  loops : s.loops = List.range (s.main.index s.numThreads)
  bStartd : s.bStartd = false ↔ s.main = .idle
  isListening : s.isListening = true ↔ s.main = .listening

theorem init_inv (n : Nat) (hasCallback : Bool) (base : Nat) : Inv base (init n hasCallback base) where
  bound := Nat.zero_le _
  room _ h := h.elim
  past := nofun
  future _ _ := rfl
  current := by simp [init, absent, Main.At]
  consistent j := ⟨rfl, rfl, nofun, rfl, nofun⟩
  next := rfl
  inits := by simp [init, State.expectedInits, Main.started, Main.index, absent, Pc.called]
  waits := nofun
  takes := nofun
  loops := rfl
  bStartd := by simp [init]
  isListening := by simp [init]

variable {base : Nat} {s : State}

/-- Without a thread that it waits for, the main thread has started those before its index. -/
theorem Inv.settled (h : Inv base s) (hat : ¬ ∃ i, s.main.At i) :
    (s.threads (s.main.index s.numThreads)).pc = .absent ∧ s.loopNextIdx = base + s.main.index s.numThreads := by
  have habsent := h.current.mpr hat
  refine ⟨habsent, ?_⟩
  rw [h.next, habsent]
  rfl

theorem Inv.ready (h : Inv base s) (hmain : s.main = .listening) : Ready base s := by
  have hindex : s.main.index s.numThreads = s.numThreads := by rw [hmain]; rfl
  obtain ⟨habsent, hnext⟩ := h.settled (by rw [hmain]; rintro ⟨i, ⟨⟩⟩)
  rw [hindex] at habsent hnext
  refine ⟨by rw [h.loops, hindex], fun i hi => ?_, ?_, hnext⟩
  · have hpc := h.past i (by rw [hindex]; exact hi)
    obtain ⟨hloop, hidx, _, hmutex, _⟩ := h.consistent i
    rw [hpc] at hloop hidx hmutex
    rw [hmain] at hmutex
    cases ht : s.threads i with
    | mk pc mutex loop loopIdx =>
        rw [ht] at hpc hloop hidx hmutex
        cases hpc
        cases hloop
        cases hidx
        cases hmutex
        rfl
  · rw [h.inits, State.expectedInits, hindex, habsent, hmain]
    simp [Main.started, Pc.called]

theorem setThread_self (s : State) (i : Nat) (t : Thread) : (s.setThread i t).threads i = t := Function.update_self ..

theorem setThread_ne (s : State) {i j : Nat} (t : Thread) (h : j ≠ i) : (s.setThread i t).threads j = s.threads j :=
  Function.update_of_ne h ..

/-- The main thread comes to wait for thread `i`, or waits for it and one of the two goes on. -/
theorem Inv.enter (h : Inv base s) {i : Nat} (hindex : s.main.index s.numThreads = i) (hroom : i < s.numThreads)
    (hfree : ∀ j, j ≠ i → s.main.holds j = false) (hidle : s.main ≠ .idle) (hlistening : s.main ≠ .listening)
    {m : Main} (hm : m.At i) {t : Thread} (hpc : t.pc ≠ .absent) (hconsistent : t.Consistent base i (m.holds i))
    {inits : List (Option Nat)} {loopNextIdx : Nat} (hnext : loopNextIdx = base + i + t.pc.counted.toNat)
    (hinits : inits = if s.hasCallback then (List.range (i + t.pc.called.toNat)).map some else [])
    (hwaits : m = .blocking i ∨ m = .blocked i → t.pc.published = false)
    (htakes : m = .taking i → t.pc.published = true) :
    Inv base { s.setThread i t with main := m, inits, loopNextIdx } := by
  have hindex' := hm.index s.numThreads
  have hother : ∀ j, j ≠ i → (s.setThread i t).threads j = s.threads j := fun j hj => setThread_ne s t hj
  have hself := setThread_self s i t
  have hat' : ∀ j, m.At j → j = i := fun j hj => (hj.index s.numThreads).symm.trans hindex'
  have hpast : ∀ j < i, (s.threads j).pc = .looping := fun j hj => h.past j (by rw [hindex]; exact hj)
  have hfuture : ∀ j, i < j → (s.threads j).pc = .absent := fun j hj => h.future j (by rw [hindex]; exact hj)
  have hmain : ∀ j, m = .blocking j ∨ m = .blocked j ∨ m = .taking j → j = i := by
    rintro j (rfl | rfl | rfl)
    · exact hm
    · exact hm
    · exact hm
  constructor
  · show m.index s.numThreads ≤ s.numThreads
    omega
  · intro j hj
    rw [hat' j hj]
    exact hroom
  · intro j hj
    have hlt : j < i := hindex' ▸ hj
    exact (congrArg Thread.pc (hother j hlt.ne)).trans (hpast j hlt)
  · intro j hj
    have hlt : i < j := hindex' ▸ hj
    exact (congrArg Thread.pc (hother j hlt.ne')).trans (hfuture j hlt)
  · show ((s.setThread i t).threads (m.index s.numThreads)).pc = .absent ↔ ¬ ∃ j, m.At j
    rw [hindex', hself]
    exact iff_of_false hpc (not_not.mpr ⟨i, hm⟩)
  · intro j
    show ((s.setThread i t).threads j).Consistent base j (m.holds j)
    by_cases hj : j = i
    · subst hj
      rw [hself]
      exact hconsistent
    · rw [hother j hj, hm.holds hj, ← hfree j hj]
      exact h.consistent j
  · show loopNextIdx = base + m.index s.numThreads + ((s.setThread i t).threads (m.index s.numThreads)).pc.counted.toNat
    rw [hindex', hself]
    exact hnext
  · show inits = if s.hasCallback then if m.started ∧ s.numThreads = 0 then [none] else
      (List.range (m.index s.numThreads + ((s.setThread i t).threads (m.index s.numThreads)).pc.called.toNat)).map some
      else []
    rw [hindex', hself, hm.started]
    simpa using hinits
  · intro j hj
    have heq := hmain j (hj.imp_right Or.inl)
    subst heq
    show ((s.setThread j t).threads j).pc.published = false
    rw [hself]
    exact hwaits hj
  · intro j hj
    have heq := hmain j (Or.inr (Or.inr hj))
    subst heq
    show ((s.setThread j t).threads j).pc.published = true
    rw [hself]
    exact htakes hj
  · show s.loops = List.range (m.index s.numThreads)
    rw [hindex', h.loops, hindex]
  · show s.bStartd = false ↔ m = .idle
    refine iff_of_false (fun hb => hidle (h.bStartd.mp hb)) ?_
    rintro rfl
    exact hm
  · show s.isListening = true ↔ m = .listening
    refine iff_of_false (fun hb => hlistening (h.isListening.mp hb)) ?_
    rintro rfl
    exact hm

theorem Inv.move (h : Inv base s) {i : Nat} (hat : s.main.At i) {m : Main} (hm : m.At i) {t : Thread}
    (hpc : t.pc ≠ .absent) (hconsistent : t.Consistent base i (m.holds i)) {inits : List (Option Nat)}
    {loopNextIdx : Nat} (hnext : loopNextIdx = base + i + t.pc.counted.toNat)
    (hinits : inits = if s.hasCallback then (List.range (i + t.pc.called.toNat)).map some else [])
    (hwaits : m = .blocking i ∨ m = .blocked i → t.pc.published = false)
    (htakes : m = .taking i → t.pc.published = true) :
    Inv base { s.setThread i t with main := m, inits, loopNextIdx } := by
  refine h.enter (hat.index _) (h.room i hat) (fun j hj => hat.holds hj) ?_ ?_ hm hpc hconsistent hnext hinits hwaits
    htakes
  · intro hmain
    rw [hmain] at hat
    exact hat
  · intro hmain
    rw [hmain] at hat
    exact hat

theorem Inv.settle (h : Inv base s) (hat : ¬ ∃ i, s.main.At i) {m : Main} (hm : ¬ ∃ i, m.At i)
    (hindex : m.index s.numThreads = s.main.index s.numThreads) (inits : List (Option Nat)) (bStartd isListening : Bool)
    (hinits : inits = if s.hasCallback then if m.started ∧ s.numThreads = 0 then [none] else
      (List.range (m.index s.numThreads)).map some else [])
    (hstart : bStartd = false ↔ m = .idle) (hlisten : isListening = true ↔ m = .listening) :
    Inv base { s with main := m, inits, bStartd, isListening } := by
  obtain ⟨habsent, hnext⟩ := h.settled hat
  rw [← hindex] at habsent hnext
  constructor
  · exact hindex ▸ h.bound
  · exact fun i hi => absurd ⟨i, hi⟩ hm
  · exact fun j hj => h.past j (hindex ▸ hj)
  · exact fun j hj => h.future j (hindex ▸ hj)
  · exact iff_of_true habsent hm
  · intro j
    show (s.threads j).Consistent base j (m.holds j)
    rw [Main.holds_of_not_at hm j, ← Main.holds_of_not_at hat j]
    exact h.consistent j
  · show s.loopNextIdx = base + m.index s.numThreads + (s.threads (m.index s.numThreads)).pc.counted.toNat
    rw [habsent]
    exact hnext
  · show inits = if s.hasCallback then if m.started ∧ s.numThreads = 0 then [none] else
      (List.range (m.index s.numThreads + (s.threads (m.index s.numThreads)).pc.called.toNat)).map some else []
    rw [habsent]
    exact hinits
  · rintro i (hi | hi)
    · exact absurd ⟨i, by rw [show m = _ from hi]; rfl⟩ hm
    · exact absurd ⟨i, by rw [show m = _ from hi]; rfl⟩ hm
  · intro i hi
    exact absurd ⟨i, by rw [show m = _ from hi]; rfl⟩ hm
  · exact hindex ▸ h.loops
  · exact hstart
  · exact hlisten

/-! ### The steps of a thread -/

/-- A thread that is under way is the one that the main thread waits for. -/
theorem Inv.at_of_pc (h : Inv base s) {i : Nat} (habsent : (s.threads i).pc ≠ .absent)
    (hlooping : (s.threads i).pc ≠ .looping) : s.main.At i := by
  rcases Nat.lt_trichotomy i (s.main.index s.numThreads) with hlt | heq | hgt
  · exact absurd (h.past i hlt) hlooping
  · rw [heq, Ne, h.current, not_not] at habsent
    obtain ⟨j, hj⟩ := habsent
    rwa [heq, hj.index]
  · exact absurd (h.future i hgt) habsent

theorem Inv.next_at (h : Inv base s) {i : Nat} (hat : s.main.At i) :
    s.loopNextIdx = base + i + (s.threads i).pc.counted.toNat := by
  rw [h.next, hat.index]

theorem Inv.inits_at (h : Inv base s) {i : Nat} (hat : s.main.At i) : s.inits =
    if s.hasCallback then (List.range (i + (s.threads i).pc.called.toNat)).map some else [] := by
  rw [h.inits, State.expectedInits, hat.index, hat.started]
  simp

theorem Inv.unpublished (h : Inv base s) {i : Nat} (pc : Pc) (hpc : (s.threads i).pc.published = false)
    (hnew : pc.published = false) : (s.main = .blocking i ∨ s.main = .blocked i → pc.published = false) ∧
      (s.main = .taking i → pc.published = true) := by
  refine ⟨fun _ => hnew, fun htaking => ?_⟩
  have := h.takes i htaking
  rw [hpc] at this
  cases this

theorem Inv.setPc (h : Inv base s) {i : Nat} (hat : s.main.At i) (pc : Pc) (habsent : pc ≠ .absent)
    (hpublished : (s.threads i).pc.published = false) (hnew : pc.published = false)
    (hholds : (s.threads i).pc.holds = false) (hnotHolds : pc.holds = false)
    {loopIdx : Option Nat} (hloopIdx : loopIdx = if pc.numbered then some (base + i) else none)
    (hstoring : ∀ loaded, pc = .storing loaded → loaded = base + i) {inits : List (Option Nat)} {loopNextIdx : Nat}
    (hnext : loopNextIdx = base + i + pc.counted.toNat)
    (hinits : inits = if s.hasCallback then (List.range (i + pc.called.toNat)).map some else []) :
    Inv base { s.setThread i { s.threads i with pc, loopIdx } with inits, loopNextIdx } := by
  obtain ⟨hloop, _, _, hmutex, _⟩ := h.consistent i
  rw [hholds] at hmutex
  obtain ⟨hwaits, htakes⟩ := h.unpublished pc hpublished hnew
  refine h.move hat hat habsent ⟨?_, hloopIdx, hstoring, ?_, fun hpc => ?_⟩ hnext hinits hwaits htakes
  · rw [hloop, hpublished, hnew]
  · rw [hnotHolds]
    exact hmutex
  · rw [hnotHolds] at hpc
    cases hpc

theorem step_construct (h : Inv base s) {i : Nat} (hen : Enabled s (.construct i)) :
    ∃ t, step s (.construct i) = .ok t ∧ Inv base t := by
  have hpc : (s.threads i).pc = .constructing := hen
  have hat := h.at_of_pc (i := i) (by rw [hpc]; simp) (by rw [hpc]; simp)
  have hnext := h.next_at hat
  have hinits := h.inits_at hat
  rw [hpc] at hnext hinits
  refine ⟨_, rfl, h.setPc hat .loading (by simp) (by rw [hpc]; rfl) rfl (by rw [hpc]; rfl) rfl ?_ (by simp) hnext
    hinits⟩
  rw [hnext]
  rfl

theorem step_load (h : Inv base s) {i : Nat} (hen : Enabled s (.load i)) :
    ∃ t, step s (.load i) = .ok t ∧ Inv base t := by
  have hpc : (s.threads i).pc = .loading := hen
  have hat := h.at_of_pc (i := i) (by rw [hpc]; simp) (by rw [hpc]; simp)
  have hnext := h.next_at hat
  have hinits := h.inits_at hat
  have hidx := (h.consistent i).loopIdx
  rw [hpc] at hnext hinits hidx
  refine ⟨_, rfl, h.setPc hat (.storing s.loopNextIdx) (by simp) (by rw [hpc]; rfl) rfl (by rw [hpc]; rfl) rfl hidx ?_
    hnext hinits⟩
  rintro loaded ⟨⟩
  exact hnext

theorem step_store (h : Inv base s) {i : Nat} (hen : Enabled s (.store i)) :
    ∃ t, step s (.store i) = .ok t ∧ Inv base t := by
  obtain ⟨loaded, hpc⟩ := hen
  have hat := h.at_of_pc (i := i) (by rw [hpc]; simp) (by rw [hpc]; simp)
  have hinits := h.inits_at hat
  obtain ⟨_, hidx, hstoring, _, _⟩ := h.consistent i
  rw [hpc] at hinits hidx
  refine ⟨{ s.setPc i .callback with loopNextIdx := loaded + 1 }, by simp only [step, hpc], ?_⟩
  refine h.setPc hat .callback (by simp) (by rw [hpc]; rfl) rfl (by rw [hpc]; rfl) rfl hidx (by simp) ?_ hinits
  rw [hstoring loaded hpc]
  rfl

theorem step_callback (h : Inv base s) {i : Nat} (hen : Enabled s (.callback i)) :
    ∃ t, step s (.callback i) = .ok t ∧ Inv base t := by
  have hpc : (s.threads i).pc = .callback := hen
  have hat := h.at_of_pc (i := i) (by rw [hpc]; simp) (by rw [hpc]; simp)
  have hnext := h.next_at hat
  have hinits := h.inits_at hat
  have hidx := (h.consistent i).loopIdx
  rw [hpc] at hnext hinits hidx
  refine ⟨_, rfl, h.setPc hat .locking (by simp) (by rw [hpc]; rfl) rfl (by rw [hpc]; rfl) rfl hidx (by simp) hnext
    ?_⟩
  show (if s.hasCallback then s.inits ++ [some i] else s.inits) = _
  rw [hinits]
  by_cases hcb : s.hasCallback = true
  · simp [hcb, Pc.called, List.range_succ]
  · simp [hcb]

theorem step_lock (h : Inv base s) {i : Nat} (hen : Enabled s (.lock i)) :
    ∃ t, step s (.lock i) = .ok t ∧ Inv base t := by
  obtain ⟨hpc, hfree⟩ := hen
  have hat := h.at_of_pc (i := i) (by rw [hpc]; simp) (by rw [hpc]; simp)
  have hnext := h.next_at hat
  have hinits := h.inits_at hat
  obtain ⟨hloop, hidx, _, hmutex, _⟩ := h.consistent i
  obtain ⟨hwaits, htakes⟩ := h.unpublished (i := i) .publishing (by rw [hpc]; rfl) rfl
  rw [hpc] at hnext hinits hloop hidx
  rw [hpc, hfree] at hmutex
  refine ⟨_, rfl, h.move hat hat (by simp) ⟨hloop, hidx, by simp, rfl, fun _ => ?_⟩ hnext hinits hwaits htakes⟩
  by_contra hheld
  rw [Bool.not_eq_false] at hheld
  rw [hheld] at hmutex
  cases hmutex

theorem notify_at {m : Main} {i : Nat} (h : m.At i) : (m.notify i).At i := by
  unfold Main.notify
  split_ifs
  · rfl
  · exact h

/-- The loop is published; the main thread is woken if it is blocked, and does not hold the mutex. -/
theorem step_publish (h : Inv base s) {i : Nat} (hen : Enabled s (.publish i)) :
    ∃ t, step s (.publish i) = .ok t ∧ Inv base t := by
  have hpc : (s.threads i).pc = .publishing := hen
  have hat := h.at_of_pc (i := i) (by rw [hpc]; simp) (by rw [hpc]; simp)
  have hnext := h.next_at hat
  have hinits := h.inits_at hat
  obtain ⟨_, hidx, _, hmutex, hexclusive⟩ := h.consistent i
  have hheld := hexclusive (by rw [hpc]; rfl)
  rw [hpc] at hnext hinits hidx hmutex
  refine ⟨_, rfl, h.move hat (notify_at hat) (by simp) ⟨rfl, hidx, by simp, hmutex, fun _ => ?_⟩ hnext hinits ?_
    fun _ => rfl⟩
  · unfold Main.notify
    split_ifs
    · rfl
    · exact hheld
  · intro hwait
    exfalso
    unfold Main.notify at hwait
    split_ifs at hwait with hblocked
    · rcases hwait with hwait | hwait <;> cases hwait
    · rcases hwait with hwait | hwait
      · rw [hwait] at hheld
        simp [Main.holds] at hheld
      · exact hblocked hwait

theorem step_unlock (h : Inv base s) {i : Nat} (hen : Enabled s (.unlock i)) :
    ∃ t, step s (.unlock i) = .ok t ∧ Inv base t := by
  have hpc : (s.threads i).pc = .unlocking := hen
  have hat := h.at_of_pc (i := i) (by rw [hpc]; simp) (by rw [hpc]; simp)
  have hnext := h.next_at hat
  have hinits := h.inits_at hat
  obtain ⟨hloop, hidx, _, _, hexclusive⟩ := h.consistent i
  have hheld := hexclusive (by rw [hpc]; rfl)
  have hwaits := h.waits i
  rw [hpc] at hnext hinits hloop hidx hwaits
  exact ⟨_, rfl, h.move hat hat (by simp) ⟨hloop, hidx, by simp, by rw [hheld]; rfl, by simp [Pc.holds]⟩ hnext
    hinits hwaits fun _ => rfl⟩

/-! ### The steps of the main thread -/

theorem setThread_same (s : State) (i : Nat) : s.setThread i (s.threads i) = s := by
  unfold State.setThread
  rw [Function.update_eq_self]

theorem Inv.setMain (h : Inv base s) {i : Nat} (hat : s.main.At i) {m : Main} (hm : m.At i) {mutex : Option Party}
    (hmutex : mutex = if (s.threads i).pc.holds then some .thread else if m.holds i then some .main else none)
    (hexclusive : (s.threads i).pc.holds = true → m.holds i = false)
    (hwaits : m = .blocking i ∨ m = .blocked i → (s.threads i).pc.published = false)
    (htakes : m = .taking i → (s.threads i).pc.published = true) :
    Inv base { s.setThread i { s.threads i with mutex } with main := m } := by
  obtain ⟨hloop, hidx, hstoring, _, _⟩ := h.consistent i
  have habsent : (s.threads i).pc ≠ .absent := by
    intro hpc
    have := h.current.mp (by rw [hat.index]; exact hpc)
    exact this ⟨i, hat⟩
  exact h.move (t := { s.threads i with mutex }) hat hm habsent ⟨hloop, hidx, hstoring, hmutex, hexclusive⟩
    (h.next_at hat) (h.inits_at hat) hwaits htakes

theorem Inv.stay (h : Inv base s) {i : Nat} (hat : s.main.At i) {m : Main} (hm : m.At i)
    (hholds : m.holds i = s.main.holds i)
    (hwaits : m = .blocking i ∨ m = .blocked i → (s.threads i).pc.published = false)
    (htakes : m = .taking i → (s.threads i).pc.published = true) : Inv base { s with main := m } := by
  obtain ⟨_, _, _, hmutex, hexclusive⟩ := h.consistent i
  rw [← hholds] at hmutex hexclusive
  have hmove := h.setMain hat hm hmutex hexclusive hwaits htakes
  rwa [setThread_same] at hmove

theorem Inv.notHolds (h : Inv base s) {i : Nat} (hheld : s.main.holds i = true) : (s.threads i).pc.holds = false := by
  by_contra hpc
  rw [(h.consistent i).exclusive (by simpa using hpc)] at hheld
  cases hheld

theorem step_mainLock (h : Inv base s) (hen : Enabled s .mainLock) : ∃ t, step s .mainLock = .ok t ∧ Inv base t := by
  obtain ⟨i, hmain, hfree⟩ := hen
  have hat : s.main.At i := by rcases hmain with hmain | hmain <;> rw [hmain] <;> rfl
  have hpc : (s.threads i).pc.holds = false := by
    by_contra hpc
    have := (h.consistent i).mutex
    rw [hfree, if_pos (by simpa using hpc)] at this
    cases this
  refine ⟨{ s.setMutex i (some .main) with main := .checking i }, ?_, ?_⟩
  · rcases hmain with hmain | hmain <;> simp only [step, hmain]
  · exact h.setMain (m := .checking i) hat rfl (by rw [hpc]; simp [Main.holds]) (by rw [hpc]; simp) (by simp) (by simp)

theorem step_mainCheck (h : Inv base s) (hen : Enabled s .mainCheck) :
    ∃ t, step s .mainCheck = .ok t ∧ Inv base t := by
  obtain ⟨i, hmain⟩ := hen
  have hat : s.main.At i := by rw [hmain]; rfl
  have hloop := (h.consistent i).loop
  refine ⟨{ s with main := if (s.threads i).loop then .taking i else .blocking i }, by simp only [step, hmain], ?_⟩
  cases hpublished : (s.threads i).loop with
  | true => exact h.stay (m := .taking i) hat rfl (by rw [hmain]; rfl) (by simp) fun _ => by rw [← hloop, hpublished]
  | false =>
      exact h.stay (m := .blocking i) hat rfl (by rw [hmain]; rfl) (fun _ => by rw [← hloop, hpublished]) (by simp)

theorem step_mainBlock (h : Inv base s) (hen : Enabled s .mainBlock) :
    ∃ t, step s .mainBlock = .ok t ∧ Inv base t := by
  obtain ⟨i, hmain⟩ := hen
  have hat : s.main.At i := by rw [hmain]; rfl
  have hpc := h.notHolds (i := i) (by rw [hmain]; simp [Main.holds])
  refine ⟨{ s.setMutex i none with main := .blocked i }, by simp only [step, hmain], ?_⟩
  exact h.setMain (m := .blocked i) hat rfl (by rw [hpc]; simp [Main.holds]) (by rw [hpc]; simp)
    (fun _ => h.waits i (Or.inl hmain)) (by simp)

theorem step_mainWakeup (h : Inv base s) (hen : Enabled s .mainWakeup) :
    ∃ t, step s .mainWakeup = .ok t ∧ Inv base t := by
  obtain ⟨i, hmain⟩ := hen
  have hat : s.main.At i := by rw [hmain]; rfl
  refine ⟨{ s with main := .notified i }, by simp only [step, hmain], ?_⟩
  exact h.stay (m := .notified i) hat rfl (by rw [hmain]; rfl) (by simp) (by simp)

theorem Inv.inits_settled (h : Inv base s) (hat : ¬ ∃ i, s.main.At i) (hstarted : s.main.started = false) :
    s.inits = if s.hasCallback then (List.range (s.main.index s.numThreads)).map some else [] := by
  rw [h.inits, State.expectedInits, (h.settled hat).1, hstarted]
  simp [Pc.called]

theorem step_start (h : Inv base s) (hen : Enabled s .start) : ∃ t, step s .start = .ok t ∧ Inv base t := by
  have hmain : s.main = .idle := hen
  have hat : ¬ ∃ i, s.main.At i := by rw [hmain]; rintro ⟨i, ⟨⟩⟩
  have hinits := h.inits_settled hat (by rw [hmain]; rfl)
  refine ⟨{ s with bStartd := true, main := .spawning 0 }, by simp [step, State.startPool, h.bStartd.mpr hmain], ?_⟩
  refine h.settle (m := .spawning 0) hat (by rintro ⟨i, ⟨⟩⟩) (by rw [hmain]; rfl) _ _ _ ?_ (by simp) ?_
  · rw [hinits, hmain]
    simp [Main.started, Main.index]
  · rw [h.isListening, hmain]
    simp

theorem step_spawn (h : Inv base s) (hen : Enabled s .spawn) : ∃ t, step s .spawn = .ok t ∧ Inv base t := by
  obtain ⟨i, hlt, hmain⟩ := hen
  have hat : ¬ ∃ i, s.main.At i := by rw [hmain]; rintro ⟨i, ⟨⟩⟩
  have hindex : s.main.index s.numThreads = i := by rw [hmain]; rfl
  have hinits := h.inits_settled hat (by rw [hmain]; rfl)
  obtain ⟨habsent, hnext⟩ := h.settled hat
  rw [hindex] at habsent hnext hinits
  obtain ⟨hloop, hidx, _, hmutex, _⟩ := h.consistent i
  rw [habsent] at hloop hidx hmutex
  rw [Main.holds_of_not_at hat] at hmutex
  refine ⟨{ s.setPc i .constructing with main := .locking i }, by simp only [step, hmain]; rw [if_pos habsent], ?_⟩
  exact h.enter (m := .locking i) (t := { s.threads i with pc := .constructing }) hindex hlt
    (fun j _ => Main.holds_of_not_at hat j) (by rw [hmain]; simp) (by rw [hmain]; simp) rfl (by simp)
    ⟨hloop, hidx, by simp, hmutex, by simp [Pc.holds]⟩ hnext hinits (by simp) (by simp)

theorem step_endLoop (h : Inv base s) (hen : Enabled s .endLoop) : ∃ t, step s .endLoop = .ok t ∧ Inv base t := by
  obtain ⟨i, hmain, hge⟩ := hen
  have hat : ¬ ∃ i, s.main.At i := by rw [hmain]; rintro ⟨i, ⟨⟩⟩
  have hindex : s.main.index s.numThreads = s.numThreads := by
    have hbound := h.bound
    rw [hmain] at hbound ⊢
    exact Nat.le_antisymm hbound (Nat.le_of_not_lt hge)
  have hinits := h.inits_settled hat (by rw [hmain]; rfl)
  rw [hindex] at hinits
  have hsettle := h.settle (m := .starting) hat (by rintro ⟨i, ⟨⟩⟩) (by rw [hindex]; rfl)
    (if s.numThreads = 0 then (s.callInit none).inits else s.inits) s.bStartd s.isListening ?_
    (by rw [h.bStartd, hmain]; simp) (by rw [h.isListening, hmain]; simp)
  · refine ⟨_, rfl, ?_⟩
    by_cases hzero : s.numThreads = 0
    · simpa [hzero, State.callInit] using hsettle
    · simpa [hzero] using hsettle
  · by_cases hzero : s.numThreads = 0
    · by_cases hcb : s.hasCallback = true <;> simp [hinits, hzero, hcb, State.callInit, Main.started]
    · simp [hinits, hzero, Main.started, Main.index]

theorem setMutex_pc (s : State) (i : Nat) (mutex : Option Party) (j : Nat) :
    ((s.setMutex i mutex).threads j).pc = (s.threads j).pc := by
  unfold State.setMutex
  by_cases hj : j = i
  · subst hj
    rw [setThread_self]
  · rw [setThread_ne s _ hj]

theorem looping_of_published {pc : Pc} (hpublished : pc.published = true) (hholds : pc.holds = false) :
    pc = .looping := by
  cases pc with
  | looping => rfl
  | unlocking => cases hholds
  | _ => cases hpublished

/-- The thread has published its loop and lets go of the mutex before the main thread takes it. -/
theorem step_mainTake (h : Inv base s) (hen : Enabled s .mainTake) : ∃ t, step s .mainTake = .ok t ∧ Inv base t := by
  obtain ⟨i, hmain⟩ := hen
  have hat : s.main.At i := by rw [hmain]; rfl
  have hindex := hat.index s.numThreads
  have hroom := h.room i hat
  have hpc := looping_of_published (h.takes i hmain) (h.notHolds (i := i) (by rw [hmain]; simp [Main.holds]))
  have hnext := h.next_at hat
  have hinits := h.inits_at hat
  have hloops := h.loops
  rw [hpc] at hnext hinits
  rw [hindex] at hloops
  have hfuture : ((s.setMutex i none).threads (i + 1)).pc = .absent := by
    rw [setMutex_pc]
    exact h.future (i + 1) (by rw [hindex]; exact Nat.lt_succ_self i)
  refine ⟨{ s.setMutex i none with loops := s.loops ++ [i], main := .spawning (i + 1) }, by simp only [step, hmain],
    ?_⟩
  constructor
  · exact hroom
  · exact fun j hj => hj.elim
  · intro j hj
    refine (setMutex_pc s i none j).trans ?_
    rcases Nat.lt_succ_iff_lt_or_eq.mp hj with hlt | rfl
    · exact h.past j (by rw [hindex]; exact hlt)
    · exact hpc
  · intro j hj
    exact (setMutex_pc s i none j).trans (h.future j (by rw [hindex]; exact Nat.lt_of_succ_lt hj))
  · refine iff_of_true hfuture ?_
    rintro ⟨j, ⟨⟩⟩
  · intro j
    show ((s.setMutex i none).threads j).Consistent base j false
    unfold State.setMutex
    by_cases hj : j = i
    · subst hj
      obtain ⟨hloop, hidx, hstoring, _, _⟩ := h.consistent j
      rw [setThread_self]
      exact ⟨hloop, hidx, hstoring, by rw [hpc]; rfl, fun _ => rfl⟩
    · rw [setThread_ne s _ hj, ← hat.holds hj]
      exact h.consistent j
  · show s.loopNextIdx = base + (i + 1) + ((s.setMutex i none).threads (i + 1)).pc.counted.toNat
    rw [hfuture, hnext]
    rfl
  · show s.inits = if s.hasCallback then if false = true ∧ s.numThreads = 0 then [none] else
      (List.range (i + 1 + ((s.setMutex i none).threads (i + 1)).pc.called.toNat)).map some else []
    rw [hfuture, hinits]
    simp [Pc.called]
  · rintro j (hj | hj) <;> cases hj
  · intro j hj
    cases hj
  · show s.loops ++ [i] = List.range (i + 1)
    rw [hloops, List.range_succ]
  · show s.bStartd = false ↔ Main.spawning (i + 1) = .idle
    rw [h.bStartd, hmain]
    simp
  · show s.isListening = true ↔ Main.spawning (i + 1) = .listening
    rw [h.isListening, hmain]
    simp

theorem step_listen (h : Inv base s) (hen : Enabled s .listen) : ∃ t, step s .listen = .ok t ∧ Inv base t := by
  have hmain : s.main = .starting := hen
  have hat : ¬ ∃ i, s.main.At i := by rw [hmain]; rintro ⟨i, ⟨⟩⟩
  have hlistening : s.isListening = false := by
    rw [← Bool.not_eq_true, h.isListening, hmain]
    simp
  have hinits := h.inits
  rw [State.expectedInits, (h.settled hat).1] at hinits
  refine ⟨{ s with isListening := true, main := .listening }, by simp [step, hlistening], ?_⟩
  refine h.settle (m := .listening) hat (by rintro ⟨i, ⟨⟩⟩) (by rw [hmain]; rfl) _ _ _ ?_ ?_ (by simp)
  · rw [hinits, hmain]
    simp [Main.started, Main.index, Pc.called]
  · rw [h.bStartd, hmain]
    simp

theorem step_inv (h : Inv base s) {e : Event} (hen : Enabled s e) : ∃ t, step s e = .ok t ∧ Inv base t := by
  cases e with
  | start => exact step_start h hen
  | spawn => exact step_spawn h hen
  | endLoop => exact step_endLoop h hen
  | mainLock => exact step_mainLock h hen
  | mainCheck => exact step_mainCheck h hen
  | mainBlock => exact step_mainBlock h hen
  | mainWakeup => exact step_mainWakeup h hen
  | mainTake => exact step_mainTake h hen
  | listen => exact step_listen h hen
  | construct i => exact step_construct h hen
  | load i => exact step_load h hen
  | store i => exact step_store h hen
  | callback i => exact step_callback h hen
  | lock i => exact step_lock h hen
  | publish i => exact step_publish h hen
  | unlock i => exact step_unlock h hen

/-- **The start publishes every loop.** In every interleaving of the main thread with the threads that it starts, no
assertion fails, and when the server listens the pool has a loop for each thread, in order, running, with an index of
its own, and the callback was called for each of them before. -/
theorem ready_of_along (n : Nat) (hasCallback : Bool) (base : Nat) (es : List Event)
    (hes : Along step Enabled (init n hasCallback base) es) :
    Holds step noError (fun _ _ t => t.main = .listening → Ready base t) (init n hasCallback base) es := by
  refine holds_of_along (fun s e h hen => ?_) (init_inv n hasCallback base) hes
  obtain ⟨t, ht, hinv⟩ := step_inv h hen
  exact StepHolds.of_ok ht ⟨hinv.ready, hinv⟩

/-- A step of the main thread is one at its index. -/
def decidableMain {C : Nat → Main} (hC : ∀ i, (C i).index 0 = i) (P : Nat → Prop) [DecidablePred P] (m : Main) :
    Decidable (∃ i, m = C i ∧ P i) :=
  decidable_of_iff (m = C (m.index 0) ∧ P (m.index 0)) <| by
    refine ⟨fun h => ⟨_, h⟩, ?_⟩
    rintro ⟨i, rfl, hP⟩
    rw [hC]
    exact ⟨rfl, hP⟩

def decidableAt {C : Nat → Main} (hC : ∀ i, (C i).index 0 = i) (m : Main) : Decidable (∃ i, m = C i) :=
  have := decidableMain hC (fun _ => True) m
  decidable_of_iff (∃ i, m = C i ∧ True) (exists_congr fun _ => Iff.of_eq (and_true _))

def decidableStoring : (pc : Pc) → Decidable (∃ loaded, pc = .storing loaded)
  | .storing loaded => .isTrue ⟨loaded, rfl⟩
  | .absent | .constructing | .loading | .callback | .locking | .publishing | .unlocking | .looping =>
      .isFalse (by rintro ⟨_, ⟨⟩⟩)

instance (s : State) : (e : Event) → Decidable (Enabled s e)
  | .start => inferInstanceAs (Decidable (s.main = .idle))
  | .spawn =>
      have := decidableMain (C := .spawning) (fun _ => rfl) (fun i => i < s.numThreads) s.main
      decidable_of_iff (∃ i, s.main = .spawning i ∧ i < s.numThreads)
        (exists_congr fun _ => and_comm)
  | .endLoop => decidableMain (C := .spawning) (fun _ => rfl) (fun i => ¬ i < s.numThreads) s.main
  | .mainLock =>
      have := decidableMain (C := .locking) (fun _ => rfl) (fun i => (s.threads i).mutex = none) s.main
      have := decidableMain (C := .notified) (fun _ => rfl) (fun i => (s.threads i).mutex = none) s.main
      decidable_of_iff ((∃ i, s.main = .locking i ∧ (s.threads i).mutex = none) ∨
        ∃ i, s.main = .notified i ∧ (s.threads i).mutex = none)
        (exists_or.symm.trans (exists_congr fun _ => or_and_right.symm))
  | .mainCheck => decidableAt (C := .checking) (fun _ => rfl) s.main
  | .mainBlock => decidableAt (C := .blocking) (fun _ => rfl) s.main
  | .mainWakeup => decidableAt (C := .blocked) (fun _ => rfl) s.main
  | .mainTake => decidableAt (C := .taking) (fun _ => rfl) s.main
  | .listen => inferInstanceAs (Decidable (s.main = .starting))
  | .construct i => inferInstanceAs (Decidable ((s.threads i).pc = .constructing))
  | .load i => inferInstanceAs (Decidable ((s.threads i).pc = .loading))
  | .store i => decidableStoring (s.threads i).pc
  | .callback i => inferInstanceAs (Decidable ((s.threads i).pc = .callback))
  | .lock i => inferInstanceAs (Decidable ((s.threads i).pc = .locking ∧ (s.threads i).mutex = none))
  | .publish i => inferInstanceAs (Decidable ((s.threads i).pc = .publishing))
  | .unlock i => inferInstanceAs (Decidable ((s.threads i).pc = .unlocking))

/-- The first thread publishes its loop while the main thread waits, the second before; the main thread wakes up
spuriously once. -/
def twoThreads : List Event :=
  [.start, .spawn, .construct 0, .mainLock, .mainCheck, .load 0, .mainBlock, .store 0, .mainWakeup, .callback 0,
    .mainLock, .mainCheck, .mainBlock, .lock 0, .publish 0, .unlock 0, .mainLock, .mainCheck, .mainTake, .spawn,
    .construct 1, .load 1, .store 1, .callback 1, .lock 1, .publish 1, .unlock 1, .mainLock, .mainCheck, .mainTake,
    .endLoop, .listen]

theorem ready_of_along_run :
    Holds step noError (fun _ _ t => t.main = .listening → Ready 1 t) (init 2 true 1) twoThreads :=
  ready_of_along 2 true 1 twoThreads (by decide +kernel)

end Startup

end OulaServer
