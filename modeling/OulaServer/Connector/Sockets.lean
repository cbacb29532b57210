import OulaServer.Connector.Spec

/-!
# No socket is lost

Whatever the order of calls, functors, timers, events and answers of the kernel: every socket that
`Connector::connect` made is owned by the attempt in progress, was closed once, or was handed over once
(`Conserved`). The invariant of `OulaServer.Connector.Spec` says so of every state; it is kept by each step that
does not end the run in a failed assertion, of `startInLoop` or of `connecting`.
-/

namespace OulaServer

namespace ConnectorLoop

open Run Connector

/-- The attempt in progress owns the socket: its channel is registered with the poller and the kernel, on the
socket's open descriptor. -/
def Owned (s : State) (name : Nat) : Prop :=
  ∃ ch, attempt s = some (name, ch) ∧ s.poller.channels ch.fd = some name ∧
    s.poller.epollSet ch.fd = some (kWriteEvent, name) ∧ s.fds ch.fd = some name

/-- Each socket is in exactly one place, and nothing was closed or handed over that should not have been. -/
structure Conserved (_ : State) (_ : Event) (t : State) : Prop where
  one : ∀ name < t.sockets,
    Owned t name ∧ closes t name = 0 ∧ hands t name = 0 ∨
      ¬ Owned t name ∧ closes t name = 1 ∧ hands t name = 0 ∨
      ¬ Owned t name ∧ closes t name = 0 ∧ hands t name = 1
  clean : ∀ e ∈ t.log, e.Clean

/-- The assertions that calls of `start` and `stop` can make fail. -/
def CallAssertion (e : Abort) : Prop := e = .startInLoop ∨ e = .connecting

instance : DecidablePred CallAssertion := fun _ => inferInstanceAs (Decidable (_ ∨ _))

variable {s : State}

theorem Inv.attempt_owned (h : Inv s) {name : Nat} {ch : Channel} (hattempt : ConnectorLoop.attempt s = some (name, ch)) :
    s.poller.channels ch.fd = some name ∧ s.poller.epollSet ch.fd = some (kWriteEvent, name) ∧
      s.fds ch.fd = some name := by
  obtain ⟨hreg, hev, hfd⟩ := h.attempt name ch hattempt
  have hne : ch.events ≠ kNoneEvent := by
    rw [hev]
    decide
  refine ⟨hreg.found fun hinit => hne ?_, ?_, hfd⟩
  · unfold EpollPoller.Registered at hreg
    rw [hinit] at hreg
    exact hreg.1
  · rw [hreg.epollSet_eq, if_neg hne, hev]

theorem Inv.owned (h : Inv s) (name : Nat) : Owned s name ↔ attempts s name = 1 := by
  constructor
  · rintro ⟨ch, hattempt, _⟩
    simp [attempts, hattempt]
  · intro hone
    have hname : (ConnectorLoop.attempt s).map Prod.fst = some name := by
      by_contra hne
      rw [attempts, if_neg hne] at hone
      cases hone
    obtain ⟨⟨name', ch⟩, hattempt, rfl⟩ := Option.map_eq_some_iff.mp hname
    exact ⟨ch, hattempt, h.attempt_owned hattempt⟩

theorem Inv.conserved (h : Inv s) {s₀ : State} {e : Event} : Conserved s₀ e s := by
  refine ⟨fun name hname => ?_, h.clean⟩
  have haccount := h.account name
  rw [if_pos hname] at haccount
  unfold uses at haccount
  rw [h.owned]
  omega

theorem runStart_inv (h : Inv s) {a : Connect} (hfd : s.fds a.sockfd = none) :
    StepHolds runStart CallAssertion (fun _ _ t => Inv t) s a := by
  by_cases hstate : s.connector.state = .kDisconnected
  · by_cases hch : s.connector.enableConnect = true → a.isConnecting = true → s.connector.channel = none
    · obtain ⟨t, _, _, ht, hinv, _⟩ := runStart_ok h hstate hfd hch
      exact StepHolds.of_ok ht hinv
    · simp only [Classical.not_imp] at hch
      obtain ⟨hon, ha, hne⟩ := hch
      have herr := runStart_unreleased hstate hon ha hne
      refine ⟨fun e he => ?_, fun t ht => ?_⟩
      · cases herr.symm.trans he
        exact Or.inr rfl
      · cases herr.symm.trans ht
  · have herr := runStart_busy hstate (a := a)
    refine ⟨fun e he => ?_, fun t ht => ?_⟩
    · cases herr.symm.trans he
      exact Or.inl rfl
    · cases herr.symm.trans ht

theorem Inv.push (h : Inv s) {inLoop : Bool} {f : Functor} (hf : resetOf f = none) {inflight : List Functor}
    (hin : ∀ f ∈ inflight, resetOf f = none) :
    Inv { s with loop := s.loop.queueInLoop inLoop f, inflight } := by
  refine h.loop ?_ hin fun active hactive => ?_
  · rw [EventLoop.queued_queueInLoop, List.filterMap_append]
    simp [ConnectorLoop.resets, hf]
  · have hphase := EventLoop.queueInLoop_phase.symm.trans hactive
    exact ⟨h.single active hphase, h.active active hphase⟩

theorem Inv.inflight_append (h : Inv s) {f : Functor} (hf : resetOf f = none) :
    Inv { s with inflight := s.inflight ++ [f] } :=
  { h with
    inflight := by
      intro g hg
      rcases List.mem_append.mp hg with hg | hg
      · exact h.inflight g hg
      · cases List.mem_singleton.mp hg
        exact hf }

/-- A socket that was handed over is not the one of the attempt in progress. -/
theorem Inv.closedByOwner (h : Inv s) {fd : Int} (hen : Enabled s (.release fd)) :
    Inv { s with fds := Function.update s.fds fd none } :=
  { h with
    attempt := by
      intro name ch hattempt
      obtain ⟨hreg, hev, hfd⟩ := h.attempt name ch hattempt
      refine ⟨hreg, hev, ?_⟩
      obtain ⟨name', hname', e, he, r, on, rfl⟩ := hen
      have hne : ch.fd ≠ fd := by
        rintro rfl
        cases hfd.symm.trans hname'
        have hone := (h.owned name).mp ⟨ch, hattempt, h.attempt_owned hattempt⟩
        have hhands : 0 < hands s name := List.countP_pos_iff.mpr ⟨_, he, beq_self_eq_true name⟩
        have haccount := h.account name
        unfold uses at haccount
        split_ifs at haccount <;> omega
      exact (Function.update_of_ne hne _ _).trans hfd }

theorem Inv.called (h : Inv s) {f : Functor} {functors : List Functor} (hphase : s.loop.phase = .calling (f :: functors))
    (hf : resetOf f = none) : Inv { s with loop := s.loop.callRest functors } := by
  refine h.loop ?_ h.inflight nofun
  unfold ConnectorLoop.resets
  rw [EventLoop.queued_calling hphase, EventLoop.queued_callRest]
  simp [hf]

theorem step_inv (s : State) (e : Event) (h : Inv s) (hen : Enabled s e) :
    StepHolds step CallAssertion (fun _ _ t => Inv t) s e := by
  cases e with
  | enterLoop =>
      refine StepHolds.of_ok rfl (h.loop ?_ h.inflight nofun)
      exact congrArg _ (EventLoop.queued_beforeLoop hen).symm
  | poll active =>
      obtain ⟨hphase, hsingle, hreported⟩ := hen
      refine StepHolds.of_ok rfl (h.loop (congrArg _ (EventLoop.queued_polling hphase).symm) h.inflight ?_)
      rintro _ ⟨⟩
      refine ⟨hsingle, fun name revents hmem => ?_⟩
      -- only the channel of an attempt in progress is in the kernel's set
      obtain ⟨c, hc, rfl, event, hevent, _⟩ := hreported _ hmem
      by_cases hstate : s.connector.state = .kConnecting
      · rw [attempt_connecting hstate, hc]
        rfl
      · rw [(h.idle hstate c.2.fd).2] at hevent
        cases hevent
  | handleEvent err isSelfConnect =>
      obtain ⟨t, ht, hinv, _⟩ := handleEvent_ok h err isSelfConnect hen
      exact StepHolds.of_ok ht hinv
  | timerCallback a => exact runStart_inv (h.setTimers (s.timers - 1)) hen.2.2
  | swapFunctors =>
      refine StepHolds.of_ok rfl (h.loop ?_ h.inflight nofun)
      rw [EventLoop.queued_swapFunctors, ← EventLoop.queued_dispatching hen]
      rfl
  | callFunctor a =>
      obtain ⟨hnext, hfd⟩ := hen
      obtain ⟨f, hf⟩ := Option.ne_none_iff_exists'.mp hnext
      obtain ⟨functors, hphase⟩ := Phase.nextFunctor_eq_some.mp hf
      have hstep : step s (.callFunctor a) = (do
          let o ← s.connector.runFunctor true s.sockets a f
          finish { s with loop := s.loop.callRest functors } o) := by
        simp only [step, hphase]
      cases f with
      | startInLoop =>
          have hrun := runStart_inv (h.called hphase rfl) (a := a) hfd
          exact ⟨fun e he => hrun.1 e (hstep.symm.trans he), fun t ht => hrun.2 t (hstep.symm.trans ht)⟩
      | stopInLoop =>
          obtain ⟨t, _, _, ht, hinv, _⟩ := stopInLoop_ok (h.called hphase rfl) fun _ he => by cases he
          exact StepHolds.of_ok (hstep.trans ht) hinv
      | resetChannel queuedFor => exact StepHolds.of_ok hstep (h.release hphase).2
  | endFunctors =>
      refine StepHolds.of_ok rfl (h.loop ?_ h.inflight fun _ he => by cases he)
      exact congrArg _ (EventLoop.queued_calling hen).symm
  | start a => exact runStart_inv (h.flag true) hen.2
  | stop => exact StepHolds.of_ok rfl ((h.flag false).push rfl h.inflight)
  | restart a =>
      obtain ⟨_, hstate, hfd⟩ := hen
      have hne : s.connector.state ≠ .kConnecting := by
        rw [hstate]
        simp
      have hrun := runStart_inv (h.rest hne true kInitRetryDelayMs) hfd
      have hstep : step s (.restart a) = runStart { s with
          connector := { s.connector with
            state := .kDisconnected
            retryDelayMs := kInitRetryDelayMs
            enableConnect := true } } a := by
        simp only [step, restart_eq]
        rfl
      exact ⟨fun e he => hrun.1 e (hstep.symm.trans he), fun t ht => hrun.2 t (hstep.symm.trans ht)⟩
  | otherStart =>
      refine StepHolds.of_ok rfl ((h.flag true).inflight_append (f := .startInLoop) rfl)
  | otherStop =>
      refine StepHolds.of_ok rfl ((h.flag false).inflight_append (f := .stopInLoop) rfl)
  | otherPush i =>
      obtain ⟨f, hf⟩ : ∃ f, s.inflight[i]? = some f := ⟨_, List.getElem?_eq_getElem hen⟩
      refine StepHolds.of_ok (t := { s with
        loop := s.loop.queueInLoop false f
        inflight := s.inflight.eraseIdx i }) ?_ (h.push (h.inflight f (List.mem_of_getElem? hf)) ?_)
      · simp only [step, hf]
      · exact fun f hf => h.inflight f (List.mem_of_mem_eraseIdx hf)
  | release fd => exact StepHolds.of_ok rfl (h.closedByOwner hen)

/-- **Sockets are conserved.** For every run of calls of `start` and `stop` from any thread, of `restart` while
the connector is in `kConnected`, of functors, retry timers and events, with any results of `::connect`,
`SO_ERROR` and the test for self-connection, up to a failed assertion of `startInLoop` or `connecting`: after
every step each socket is owned by the attempt in progress, was closed exactly once or was handed over exactly
once, it was not registered when that happened, and it was handed over only with `enableConnect_` set. -/
theorem conserved_of_along (es : List Event) (hes : Along step Enabled init es) :
    Holds step CallAssertion Conserved init es := by
  refine holds_of_along (fun s e h hen => ?_) init_inv hes
  exact (step_inv s e h hen).mono fun t _ hinv => ⟨hinv.conserved, hinv⟩

/-- The first attempt fails, and the second one, on the same descriptor, succeeds. The owner of that socket
closes it and restarts the connector, whose next socket is refused; another thread stops it. -/
def failsThenConnects : List Event :=
  [.start ⟨7, EINPROGRESS⟩, .enterLoop, .poll [.channel 0 pollOut], .handleEvent ECONNREFUSED false, .swapFunctors,
    .callFunctor ⟨7, 0⟩, .endFunctors, .poll [.timerfd], .timerCallback ⟨7, 0⟩, .handleEvent 0 false, .swapFunctors,
    .endFunctors, .poll [.channel 1 pollOut], .handleEvent 0 false, .swapFunctors, .callFunctor ⟨8, 0⟩, .release 7,
    .restart ⟨7, ECONNREFUSED⟩, .otherStop, .otherPush 0, .endFunctors]

theorem conserved_of_along_run : Holds step CallAssertion Conserved init failsThenConnects :=
  conserved_of_along failsThenConnects (by decide +kernel)

end ConnectorLoop

end OulaServer
