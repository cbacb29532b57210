import OulaServer.Connector.Sockets

/-!
# `start` and `stop` in turn

Calls of `start` and `stop` that alternate, from any thread. `Safe` says that no assertion fails, that an attempt
is in progress exactly when `channel_` holds a registered channel, and that at most one attempt is scheduled or
running: `scheduled` counts the running one, the retry timers and the functors of `startInLoop`.

Neither `stop` nor the end of an attempt takes back what is scheduled or releases `channel_` at once, so that a
later `start` is safe only when it finds the connector at rest. `Ready` says so of every step that reaches
`startInLoop`, and of `start` on another thread, which schedules it; it is the exact condition (`safe_iff`).
-/

namespace OulaServer

namespace ConnectorLoop

open Run Connector

/-- `::connect` leaves an attempt running, or one to be tried later. -/
def schedules (a : Connect) : Bool := a.isConnecting || a.isRetry

/-- The calls alternate, `start` first; `restart` is not called. -/
def Alternates (s : State) : Event → Prop
  | .start _ | .otherStart => s.connector.enableConnect = false
  | .stop | .otherStop => s.connector.enableConnect = true
  | .restart _ => False
  | _ => True

def running (state : States) : Nat := if state = .kConnecting then 1 else 0

/-- The attempts that are running or scheduled. -/
def scheduled (s : State) : Nat := running s.connector.state + s.timers + starts s

/-- `channel_` holds a channel that is registered with the poller. -/
def Registers (s : State) : Prop := ∃ c ∈ s.connector.channel, s.poller.channels c.2.fd = some c.1

structure Safe (_ : State) (_ : Event) (t : State) : Prop where
  registered : t.connector.state = .kConnecting ↔ Registers t
  single : scheduled t ≤ 1

/-- A step that reaches `startInLoop` finds the connector in `kDisconnected`, `channel_` released if the attempt
gets under way, and nothing scheduled if it schedules something itself. So does a `start` on another thread. -/
def Ready (s : State) : Event → Prop
  | .start a => s.connector.state = .kDisconnected ∧
      (a.isConnecting = true → s.connector.channel = none) ∧ (schedules a = true → s.timers = 0 ∧ starts s = 0)
  | .otherStart => s.connector.state ≠ .kConnecting ∧ s.timers = 0 ∧ starts s = 0
  | .callFunctor a => s.loop.phase.nextFunctor = some .startInLoop → s.connector.state = .kDisconnected ∧
      (s.connector.enableConnect = true → a.isConnecting = true → s.connector.channel = none)
  | .timerCallback a => s.connector.enableConnect = true → a.isConnecting = true → s.connector.channel = none
  | _ => True

instance (s : State) : (e : Event) → Decidable (Alternates s e)
  | .start _ | .otherStart | .stop | .otherStop => inferInstanceAs (Decidable (_ = _))
  | .restart _ => .isFalse id
  | .enterLoop | .poll _ | .handleEvent _ _ | .timerCallback _ | .swapFunctors | .callFunctor _ | .endFunctors
  | .otherPush _ | .release _ => .isTrue trivial

instance (s : State) : (e : Event) → Decidable (Ready s e)
  | .start _ | .otherStart => inferInstanceAs (Decidable (_ ∧ _ ∧ _))
  | .callFunctor _ => inferInstanceAs (Decidable (_ → _ ∧ (_ → _ → _)))
  | .timerCallback _ => inferInstanceAs (Decidable (_ → _ → _))
  | .enterLoop | .poll _ | .handleEvent _ _ | .swapFunctors | .endFunctors | .stop | .restart _ | .otherStop
  | .otherPush _ | .release _ => .isTrue trivial

/-! ### The invariant -/

structure Single (s : State) : Prop extends Inv s where
  scheduled : ConnectorLoop.scheduled s ≤ 1
  timers : 0 < s.timers → s.connector.state = .kDisconnected

variable {s t : State}

theorem init_single : Single init := ⟨init_inv, by decide, nofun⟩

theorem Inv.registers (h : Inv s) : s.connector.state = .kConnecting ↔ Registers s := by
  constructor
  · intro hstate
    obtain ⟨⟨name, ch⟩, hch⟩ := Option.ne_none_iff_exists'.mp (h.connecting hstate)
    exact ⟨(name, ch), hch, (h.attempt_owned ((attempt_connecting hstate).trans hch)).1⟩
  · rintro ⟨c, _, hregistered⟩
    by_contra hstate
    rw [(h.idle hstate c.2.fd).1] at hregistered
    cases hregistered

theorem Single.step (h : Single s) {e : Event} (hen : Enabled s e) (ht : ConnectorLoop.step s e = .ok t)
    (hsingle : ConnectorLoop.scheduled t ≤ 1) (htimers : 0 < t.timers → t.connector.state = .kDisconnected) :
    StepHolds ConnectorLoop.step noError (fun s e t => Safe s e t ∧ Single t) s e := by
  have hinv := (step_inv s e h.toInv hen).2 t ht
  exact StepHolds.of_ok ht ⟨⟨hinv.registers, hsingle⟩, hinv, hsingle, htimers⟩

theorem Single.keep (h : Single s) {e : Event} (hen : Enabled s e) (ht : ConnectorLoop.step s e = .ok t)
    (hstate : t.connector.state = s.connector.state) (htimers : t.timers = s.timers) (hstarts : starts t = starts s) :
    StepHolds ConnectorLoop.step noError (fun s e t => Safe s e t ∧ Single t) s e := by
  refine h.step hen ht ?_ ?_
  · unfold ConnectorLoop.scheduled
    rw [hstate, htimers, hstarts]
    exact h.scheduled
  · rw [htimers, hstate]
    exact h.timers

theorem Leaves.scheduled {state : States} {n : Nat} (h : Leaves s t state n) :
    ConnectorLoop.scheduled t = running state + (s.timers + n) + ConnectorLoop.starts s := by
  unfold ConnectorLoop.scheduled
  rw [h.state, h.timers, h.starts]

/-- `startInLoop` schedules one attempt at most, and exactly as `schedules` says when it is enabled. -/
theorem Starts.scheduled {a : Connect} {state : States} {n : Nat} (h : Starts s a state n) :
    running state + n ≤ 1 ∧ (s.connector.enableConnect = true → running state + n = if schedules a then 1 else 0) := by
  cases h with
  | disabled hoff => exact ⟨Nat.zero_le _, fun hon => absurd (hoff.symm.trans hon) (by decide)⟩
  | connecting hon ha => exact ⟨le_refl _, fun _ => by simp [schedules, ha, running]⟩
  | retry hon ha hretry => exact ⟨le_refl _, fun _ => by simp [schedules, ha, hretry, running]⟩
  | fails hon ha hretry => exact ⟨Nat.zero_le _, fun _ => by simp [schedules, ha, hretry, running]⟩

theorem Starts.ne_connected {a : Connect} {state : States} {n : Nat} (h : Starts s a state n) : state ≠ .kConnected := by
  cases h <;> nofun

/-- What is left when at most one attempt is: a retry timer means that none is running. -/
theorem timers_of_single {a : Connect} {state : States} {n : Nat} (hstarts : Starts s a state n)
    (hleaves : Leaves s t state n) (hsingle : scheduled t ≤ 1) (htimers : 0 < t.timers) :
    t.connector.state = .kDisconnected := by
  have hstate := hleaves.state
  cases state with
  | kDisconnected => exact hstate
  | kConnecting =>
      unfold scheduled at hsingle
      rw [hstate] at hsingle
      change 1 + t.timers + starts t ≤ 1 at hsingle
      omega
  | kConnected => exact absurd rfl hstarts.ne_connected

/-! ### Steps -/

theorem starts_push (s : State) (connector : Connector) (inLoop : Bool) (f : Functor) :
    starts { s with connector, loop := s.loop.queueInLoop inLoop f } = starts s + [f].count .startInLoop := by
  unfold starts pending
  rw [EventLoop.queued_queueInLoop]
  simp only [List.count_append]
  omega

theorem starts_queued (s : State) {t : State} (hqueued : t.loop.queued = s.loop.queued) (hin : t.inflight = s.inflight) :
    starts t = starts s := by
  unfold starts pending
  rw [hqueued, hin]

theorem starts_inflight (s : State) (connector : Connector) (f : Functor) :
    starts { s with connector, inflight := s.inflight ++ [f] } = starts s + [f].count .startInLoop := by
  unfold starts pending
  simp only [List.count_append]
  omega

theorem Single.runsStart (h : Single s) {e : Event} (hen : Enabled s e) {s' : State} {a : Connect} (hinv : Inv s')
    (hstep : ConnectorLoop.step s e = runStart s' a) (hstate : s'.connector.state = .kDisconnected)
    (hfd : s'.fds a.sockfd = none)
    (hch : s'.connector.enableConnect = true → a.isConnecting = true → s'.connector.channel = none)
    (hroom : s'.timers + starts s' = 0 ∨
      s'.connector.enableConnect = true ∧ schedules a = false ∧ s'.timers + starts s' ≤ 1) :
    StepHolds ConnectorLoop.step noError (fun s e t => Safe s e t ∧ Single t) s e := by
  obtain ⟨t, state, n, ht, _, hstarts, hleaves⟩ := runStart_ok hinv hstate hfd hch
  have hscheduled := hleaves.scheduled
  obtain ⟨hone, hexact⟩ := hstarts.scheduled
  have hsingle : ConnectorLoop.scheduled t ≤ 1 := by
    rcases hroom with hroom | ⟨hon, hnone, hroom⟩
    · omega
    · have hzero := hexact hon
      rw [hnone] at hzero
      simp only [Bool.false_eq_true, if_false] at hzero
      omega
  exact h.step hen (hstep.trans ht) hsingle (timers_of_single hstarts hleaves hsingle)

theorem good_handleEvent (h : Single s) {err : Nat} {isSelfConnect : Bool}
    (hen : Enabled s (.handleEvent err isSelfConnect)) :
    StepHolds step noError (fun s e t => Safe s e t ∧ Single t) s (.handleEvent err isSelfConnect) := by
  obtain ⟨t, ht, _, ⟨hconn, htimers, hstarts⟩ | ⟨hstate, state, n, hleaves, hcases⟩⟩ :=
    handleEvent_ok h.toInv err isSelfConnect hen
  · exact h.keep hen ht (congrArg _ hconn) htimers hstarts
  · -- the attempt that ends is the only one
    have hbefore : 1 + s.timers + starts s ≤ 1 := by
      have hsingle := h.scheduled
      unfold scheduled running at hsingle
      rwa [if_pos hstate] at hsingle
    have hafter := hleaves.scheduled
    have htimers := hleaves.timers
    rcases hcases with ⟨rfl, rfl⟩ | ⟨rfl, rfl⟩
    · refine h.step hen ht ?_ fun hpos => ?_
      · change scheduled t = 0 + (s.timers + 0) + starts s at hafter
        omega
      · omega
    · refine h.step hen ht ?_ fun _ => hleaves.state
      change scheduled t = 0 + (s.timers + _) + starts s at hafter
      split_ifs at hafter <;> omega

theorem good_callFunctor (h : Single s) {a : Connect} (hen : Enabled s (.callFunctor a))
    (hready : Ready s (.callFunctor a)) :
    StepHolds step noError (fun s e t => Safe s e t ∧ Single t) s (.callFunctor a) := by
  obtain ⟨hnext, hfd⟩ := hen
  obtain ⟨f, hf⟩ := Option.ne_none_iff_exists'.mp hnext
  obtain ⟨functors, hphase⟩ := Phase.nextFunctor_eq_some.mp hf
  have hqueued := EventLoop.queued_calling hphase
  have hstep : step s (.callFunctor a) = (do
      let o ← s.connector.runFunctor true s.sockets a f
      finish { s with loop := s.loop.callRest functors } o) := by
    simp only [step, hphase]
  have hcount : starts s = starts { s with loop := s.loop.callRest functors } + [f].count .startInLoop := by
    unfold starts pending
    rw [hqueued, EventLoop.queued_callRest]
    simp only [List.count_append, List.cons_append, List.count_cons, List.count_nil]
    omega
  cases f with
  | startInLoop =>
      obtain ⟨hstate, hch⟩ := hready hf
      have hinv : Inv { s with loop := s.loop.callRest functors } := h.called hphase rfl
      refine h.runsStart ⟨hnext, hfd⟩ hinv hstep hstate hfd hch (Or.inl ?_)
      change s.timers + _ = 0
      have hsingle := h.scheduled
      unfold scheduled at hsingle
      change starts s = _ + 1 at hcount
      omega
  | stopInLoop =>
      obtain ⟨t, state, n, ht, _, hleaves, hcases⟩ := stopInLoop_ok (h.called hphase rfl) fun _ he => by cases he
      change starts s = _ + 0 at hcount
      have hafter := hleaves.scheduled
      have htimers := hleaves.timers
      rcases hcases with ⟨_, rfl, rfl⟩ | ⟨hstate, rfl, rfl⟩
      · exact h.keep ⟨hnext, hfd⟩ (hstep.trans ht) hleaves.state htimers (hleaves.starts.trans hcount.symm)
      · have hbefore : 1 + s.timers + starts s ≤ 1 := by
          have hsingle := h.scheduled
          unfold scheduled running at hsingle
          rwa [if_pos (show s.connector.state = .kConnecting from hstate)] at hsingle
        refine h.step ⟨hnext, hfd⟩ (hstep.trans ht) ?_ fun _ => hleaves.state
        change scheduled t = 0 + (s.timers + if s.connector.enableConnect then 1 else 0) + _ at hafter
        split_ifs at hafter <;> omega
  | resetChannel queuedFor =>
      refine h.keep ⟨hnext, hfd⟩ hstep rfl rfl ?_
      exact hcount.symm

theorem good_start (h : Single s) {a : Connect} (hen : Enabled s (.start a)) (hready : Ready s (.start a)) :
    StepHolds step noError (fun s e t => Safe s e t ∧ Single t) s (.start a) := by
  obtain ⟨hstate, hch, hroom⟩ := hready
  refine h.runsStart hen (h.flag true) rfl hstate hen.2 (fun _ => hch) ?_
  change s.timers + starts s = 0 ∨ _ ∧ _ ∧ s.timers + starts s ≤ 1
  cases hschedules : schedules a with
  | true =>
      obtain ⟨htimers, hstarts⟩ := hroom hschedules
      exact Or.inl (by omega)
  | false =>
      have hsingle := h.scheduled
      unfold scheduled at hsingle
      exact Or.inr ⟨rfl, rfl, by omega⟩

theorem step_good (s : State) (e : Event) (h : Single s) (hP : Enabled s e ∧ Alternates s e) (hready : Ready s e) :
    StepHolds step noError (fun s e t => Safe s e t ∧ Single t) s e := by
  obtain ⟨hen, halternates⟩ := hP
  cases e with
  | enterLoop => exact h.keep hen rfl rfl rfl (starts_queued s (EventLoop.queued_beforeLoop hen).symm rfl)
  | poll active => exact h.keep hen rfl rfl rfl (starts_queued s (EventLoop.queued_polling hen.1).symm rfl)
  | handleEvent err isSelfConnect => exact good_handleEvent h hen
  | timerCallback a =>
      have hstate := h.timers hen.1
      have hsingle := h.scheduled
      unfold scheduled at hsingle
      refine h.runsStart hen (h.setTimers (s.timers - 1)) rfl hstate hen.2.2 hready (Or.inl ?_)
      change s.timers - 1 + starts s = 0
      have hpos := hen.1
      omega
  | swapFunctors =>
      refine h.keep hen rfl rfl rfl (starts_queued s ?_ rfl)
      rw [EventLoop.queued_dispatching hen]
      exact EventLoop.queued_swapFunctors
  | callFunctor a => exact good_callFunctor h hen hready
  | endFunctors => exact h.keep hen rfl rfl rfl (starts_queued s (EventLoop.queued_calling hen).symm rfl)
  | start a => exact good_start h hen hready
  | stop => exact h.keep hen rfl rfl rfl (starts_push s _ true .stopInLoop)
  | restart a => exact absurd halternates id
  | otherStart =>
      obtain ⟨hstate, htimers, hstarts⟩ := hready
      refine h.step hen rfl ?_ fun hpos => absurd htimers hpos.ne'
      have hcount := starts_inflight s { s.connector with enableConnect := true } .startInLoop
      rw [show [Functor.startInLoop].count .startInLoop = 1 from rfl] at hcount
      change running s.connector.state + s.timers + starts { s with
        connector := { s.connector with enableConnect := true }
        inflight := s.inflight ++ [.startInLoop] } ≤ 1
      rw [running, if_neg hstate]
      omega
  | otherStop => exact h.keep hen rfl rfl rfl (starts_inflight s _ .stopInLoop)
  | otherPush i =>
      obtain ⟨f, hf⟩ : ∃ f, s.inflight[i]? = some f := ⟨_, List.getElem?_eq_getElem hen⟩
      refine h.keep (t := { s with
        loop := s.loop.queueInLoop false f
        inflight := s.inflight.eraseIdx i }) hen (by simp only [step, hf]) rfl rfl ?_
      -- the functor moves from one list to the other
      have hperm := List.getElem_cons_eraseIdx_perm hen
      have hget : s.inflight[i] = f := by
        rw [List.getElem?_eq_getElem hen] at hf
        exact Option.some.inj hf
      have hcount := hperm.count_eq .startInLoop
      rw [hget, List.count_cons] at hcount
      unfold starts pending
      rw [EventLoop.queued_queueInLoop]
      simp only [List.count_append, List.count_cons, List.count_nil]
      omega
  | release fd => exact h.keep hen rfl rfl rfl rfl

/-- `startInLoop` of a connector that is not at rest fails, or leaves two attempts. -/
theorem runStart_bad {s' : State} {a : Connect} (hinv : Inv s') (hon : s'.connector.enableConnect = true)
    (hfd : s'.fds a.sockfd = none)
    (hbad : ¬ (s'.connector.state = .kDisconnected ∧ (a.isConnecting = true → s'.connector.channel = none) ∧
      (schedules a = true → s'.timers = 0 ∧ starts s' = 0))) :
    (∃ e, runStart s' a = .error e) ∨ ∃ t, runStart s' a = .ok t ∧ 1 < scheduled t := by
  by_cases hstate : s'.connector.state = .kDisconnected
  · by_cases hch : a.isConnecting = true → s'.connector.channel = none
    · obtain ⟨t, state, n, ht, _, hstarts, hleaves⟩ := runStart_ok hinv hstate hfd fun _ => hch
      refine Or.inr ⟨t, ht, ?_⟩
      have hexact := hstarts.scheduled.2 hon
      have hscheduled := hleaves.scheduled
      have hmore : schedules a = true ∧ ¬ (s'.timers = 0 ∧ starts s' = 0) := by
        by_contra hno
        exact hbad ⟨hstate, hch, fun hs => by_contra fun hne => hno ⟨hs, hne⟩⟩
      rw [if_pos hmore.1] at hexact
      omega
    · simp only [Classical.not_imp] at hch
      exact Or.inl ⟨_, runStart_unreleased hstate hon hch.1 hch.2⟩
  · exact Or.inl ⟨_, runStart_busy hstate⟩

theorem step_bad (s : State) (e : Event) (h : Single s) (hP : Enabled s e ∧ Alternates s e) (hbad : ¬ Ready s e) :
    ¬ StepHolds step noError Safe s e := by
  intro hold
  obtain ⟨hen, halternates⟩ := hP
  cases e with
  | start a =>
      have hflag : Inv { s with connector := { s.connector with enableConnect := true } } := h.flag true
      rcases runStart_bad hflag rfl hen.2 hbad with ⟨e, he⟩ | ⟨t, ht, hmore⟩
      · exact hold.1 e he
      · exact absurd (hold.2 t ht).single (by omega)
  | otherStart =>
      have hsingle := (hold.2 _ rfl).single
      have hcount := starts_inflight s { s.connector with enableConnect := true } .startInLoop
      rw [show [Functor.startInLoop].count .startInLoop = 1 from rfl] at hcount
      change running s.connector.state + s.timers + starts { s with
        connector := { s.connector with enableConnect := true }
        inflight := s.inflight ++ [.startInLoop] } ≤ 1 at hsingle
      refine hbad ⟨fun hstate => ?_, by omega⟩
      rw [running, if_pos hstate] at hsingle
      omega
  | callFunctor a =>
      simp only [Ready, Classical.not_imp] at hbad
      obtain ⟨hnext, hbad⟩ := hbad
      obtain ⟨functors, hphase⟩ := Phase.nextFunctor_eq_some.mp hnext
      let s' : State := { s with loop := s.loop.callRest functors }
      have hstep : step s (.callFunctor a) = runStart s' a := by
        simp only [step, hphase]
        rfl
      by_cases hstate : s.connector.state = .kDisconnected
      · have hch : ¬ (s.connector.enableConnect = true → a.isConnecting = true → s.connector.channel = none) :=
          fun h => hbad ⟨hstate, h⟩
        simp only [Classical.not_imp] at hch
        obtain ⟨hon, ha, hne⟩ := hch
        exact hold.1 _ (hstep.trans (runStart_unreleased (s := s') hstate hon ha hne))
      · exact hold.1 _ (hstep.trans (runStart_busy (s := s') hstate))
  | timerCallback a =>
      simp only [Ready, Classical.not_imp] at hbad
      obtain ⟨hon, ha, hch⟩ := hbad
      let s' : State := { s with timers := s.timers - 1 }
      exact hold.1 _ (runStart_unreleased (s := s') (h.timers hen.1) hon ha hch)
  | _ => exact hbad trivial

/-- **When `start` and `stop` are safe.** For every run in which `start` and `stop` are called in turn, from any
thread and at any moment, among functors, retry timers and events, with any results of `::connect`, `SO_ERROR` and
the test for self-connection: no assertion fails, `state_` is `kConnecting` exactly when `channel_` holds a
registered channel and at most one attempt is scheduled or running, if and only if every step that reaches
`startInLoop` or schedules it from another thread finds the connector at rest. -/
theorem safe_iff (es : List Event) (hes : Along step (fun s e => Enabled s e ∧ Alternates s e) init es) :
    Holds step noError Safe init es ↔ Along step Ready init es :=
  holds_iff_along step_good step_bad init_single hes

/-- The first attempt fails and the second one is stopped; once its channel is released, another thread starts
the connector again. -/
def startsAtRest : List Event :=
  [.start ⟨7, EINPROGRESS⟩, .enterLoop, .poll [.channel 0 pollOut], .handleEvent ECONNREFUSED false, .swapFunctors,
    .callFunctor ⟨7, 0⟩, .endFunctors, .poll [.timerfd], .timerCallback ⟨7, EINPROGRESS⟩, .otherStop, .otherPush 0,
    .handleEvent 0 false, .swapFunctors, .callFunctor ⟨8, 0⟩, .endFunctors, .poll [], .swapFunctors,
    .callFunctor ⟨8, 0⟩, .otherStart, .endFunctors, .otherPush 0, .poll [], .swapFunctors, .callFunctor ⟨8, 0⟩,
    .endFunctors, .poll [.channel 2 pollOut], .handleEvent 0 false]

theorem safe_iff_run : Holds step noError Safe init startsAtRest :=
  (safe_iff startsAtRest (by decide +kernel)).mpr (by decide +kernel)

/-- `stop` leaves the attempt in progress until its functor is called. -/
def startsWhileConnecting : List Event := [.start ⟨7, EINPROGRESS⟩, .stop, .start ⟨8, EINPROGRESS⟩]

theorem started_while_connecting :
    Along step (fun s e => Enabled s e ∧ Alternates s e) init startsWhileConnecting ∧
      ¬ Holds step noError Safe init startsWhileConnecting := by
  have hrun : Along step (fun s e => Enabled s e ∧ Alternates s e) init startsWhileConnecting := by decide +kernel
  refine ⟨hrun, fun h => ?_⟩
  exact ((h.2 _ rfl).2.2 _ rfl).2.1 _ rfl

end ConnectorLoop

end OulaServer
