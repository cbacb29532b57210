import OulaServer.TcpConnection.Loop

/-!
# A connection closes once

`Orderly` says of a step that the state moves forward, that the callback for a closed connection and
`closeCallback_` were called at most once, and that no message was delivered after the former.

A closed connection calls nothing as long as `HandleEvent` does not reach `handleClose` or `handleRead`
again. `epoll` does not report a closed channel, but the batch at hand may: `NoEventAfterClose` says of
each `HandleEvent` that it finds the connection open, or received no event that matters, and that a
hang-up (which closes) does not come together with a readable event.
-/

namespace OulaServer

namespace ConnLoop

open Run TcpConnection

/-- No message is delivered after the callback for the closed connection. -/
def MessagesFirst (log : List Entry) : Prop :=
  log.Pairwise fun a b => a = .user .connectionDown → b ≠ .user .messageCallback

/-- The state moves forward, and the connection is closed at most once and delivers no message after. -/
def Orderly (s : State) (_ : Event) (t : State) : Prop :=
  s.conn.state ≤ t.conn.state ∧ t.log.count (.user .connectionDown) ≤ 1 ∧
    t.log.count (.user .closeCallback) ≤ 1 ∧ MessagesFirst t.log

instance (s : State) (e : Event) (t : State) : Decidable (Orderly s e t) :=
  inferInstanceAs (Decidable (_ ∧ _ ∧ _ ∧
    List.Pairwise (fun a b => a = Entry.user .connectionDown → b ≠ Entry.user .messageCallback) t.log))

/-- The received events of a closed connection show no hang-up and nothing to read, and those of an open
one not both. -/
def Harmless (state : StateE) : Option Active → Prop
  | some (.channel revents) =>
      (state = .kDisconnected → isHangUp revents = false ∧ isReadable revents = false) ∧
        ¬ (isHangUp revents = true ∧ isReadable revents = true)
  | _ => True

/-- `HandleEvent` is called on the connection's channel only with harmless events. -/
def NoEventAfterClose (s : State) : Event → Prop
  | .handleEvent => Harmless s.conn.state s.loop.phase.nextChannel
  | _ => True

instance (state : StateE) : (a : Option Active) → Decidable (Harmless state a)
  | some (.channel _) => inferInstanceAs (Decidable (_ ∧ _))
  | some .timerfd | some .other | none => .isTrue trivial

instance (s : State) : (e : Event) → Decidable (NoEventAfterClose s e)
  | .handleEvent => inferInstanceAs (Decidable (Harmless s.conn.state s.loop.phase.nextChannel))
  | .enterLoop | .poll _ | .handleCallback _ _ | .timerCallback | .swapFunctors | .callFunctor _ _
  | .endFunctors | .userCode | .call _ _ _ | .retrieve _ | .establish | .otherCall _ | .otherPush _ =>
      .isTrue trivial

/-! ### The invariant -/

/-- Nothing happened to the connection yet: its `ConnectEstablished` is on its way. -/
structure Untouched (s : State) : Prop where
  callbacks : s.callbacks = []
  interest : s.conn.channel.events = kNoneEvent
  active : ∀ active, s.loop.phase = .dispatching active → ∀ revents, .channel revents ∉ active
  pending : pending s = [.connectEstablished]

structure Inv (s : State) : Prop where
  validIn : s.conn.inputBuffer.Valid
  validOut : s.conn.outputBuffer.Valid
  connecting : s.conn.state = .kConnecting → Untouched s
  once : s.conn.state ≠ .kConnecting → .connectEstablished ∉ pending s
  calling : ∀ functors, s.loop.phase = .calling functors → s.callbacks = []
  tail : ∀ cb ∈ s.callbacks.tail, cb = .write
  afterClose : s.conn.state = .kDisconnected → ∀ cb ∈ s.callbacks, cb = .write
  downs : s.log.count (.user .connectionDown) + s.rest.count .connectionDown =
    if s.conn.state = .kDisconnected then 1 else 0
  closes : s.log.count (.user .closeCallback) + s.rest.count .closeCallback ≤
    if s.conn.state = .kDisconnected then 1 else 0
  message : .messageCallback ∈ s.rest → s.conn.state ≠ .kDisconnected
  order : MessagesFirst s.log

theorem init_inv {c : TcpConnection} (hin : c.inputBuffer.Valid) (hout : c.outputBuffer.Valid)
    (hstate : c.state = .kConnecting) (hnone : c.channel.events = kNoneEvent) : Inv (init c) where
  validIn := hin
  validOut := hout
  connecting _ := ⟨rfl, hnone, nofun, rfl⟩
  once h := absurd hstate h
  calling := nofun
  tail := nofun
  afterClose _ := nofun
  downs := by simp [init, hstate]
  closes := by simp [init]
  message := nofun
  order := List.Pairwise.nil

variable {s : State} {o : Outcome}

theorem Inv.orderly (h : Inv s) {e : Event} {s₀ : State} (hle : s₀.conn.state ≤ s.conn.state) :
    Orderly s₀ e s := by
  have hdowns := h.downs
  have hcloses := h.closes
  refine ⟨hle, ?_, ?_, h.order⟩
  · split_ifs at hdowns <;> omega
  · split_ifs at hcloses <;> omega

theorem MessagesFirst.append {log : List Entry} (h : MessagesFirst log) {es : List Entry}
    (hes : ∀ e ∈ es, ∀ r, e ≠ .user r) : MessagesFirst (log ++ es) := by
  refine List.pairwise_append.mpr ⟨h, ?_, fun a _ b hb _ => hes b hb _⟩
  exact List.pairwise_of_forall_mem_list fun a ha b hb hab => absurd hab (hes a ha _)

theorem count_append_user {log es : List Entry} {r : Rest} (hes : ∀ e ∈ es, ∀ r, e ≠ .user r) :
    (log ++ es).count (.user r) = log.count (.user r) := by
  rw [List.count_append, List.count_eq_zero_of_not_mem fun hmem => hes _ hmem r rfl, Nat.add_zero]

theorem effect_ne_user (effects : List Effect) : ∀ e ∈ effects.map Entry.effect, ∀ r, e ≠ .user r := by
  intro e he r
  obtain ⟨_, _, rfl⟩ := List.mem_map.mp he
  exact nofun

theorem accept_ne_user (c : Call) : ∀ e ∈ accept c, ∀ r, e ≠ .user r := by
  cases c <;> simp [accept]

/-! ### What keeps the invariant -/

/-- What is to be checked of a function of a connection that was established. -/
theorem Inv.outcome (h : Inv s) (hstate : s.conn.state ≠ .kConnecting) (hstate' : o.conn.state ≠ .kConnecting)
    (hin : o.conn.inputBuffer.Valid) (hout : o.conn.outputBuffer.Valid)
    (hfun : .connectEstablished ∉ functors o.effects)
    (hafter : o.conn.state = .kDisconnected → ∀ cb ∈ s.callbacks, cb = .write)
    (hdowns : s.log.count (.user .connectionDown) + (o.rest ++ s.rest).count .connectionDown =
      if o.conn.state = .kDisconnected then 1 else 0)
    (hcloses : s.log.count (.user .closeCallback) + (o.rest ++ s.rest).count .closeCallback ≤
      if o.conn.state = .kDisconnected then 1 else 0)
    (hmessage : .messageCallback ∈ o.rest ++ s.rest → o.conn.state ≠ .kDisconnected) :
    Inv (finish s o) where
  validIn := by rwa [finish_conn]
  validOut := by rwa [finish_conn]
  connecting hc := absurd (by rwa [finish_conn] at hc) hstate'
  once _ hmem := by
    simp only [pending, finish_queued, finish_inflight, List.mem_append] at hmem
    rcases hmem with (hq | hf) | hin
    · exact h.once hstate (List.mem_append_left _ hq)
    · exact hfun hf
    · exact h.once hstate (List.mem_append_right _ hin)
  calling functors hp := by
    rw [finish_phase] at hp
    rw [finish_callbacks]
    exact h.calling functors hp
  tail := by rw [finish_callbacks]; exact h.tail
  afterClose := by rwa [finish_conn, finish_callbacks]
  downs := by rwa [finish_log, count_append_user (effect_ne_user _), finish_rest, finish_conn]
  closes := by rwa [finish_log, count_append_user (effect_ne_user _), finish_rest, finish_conn]
  message := by rwa [finish_rest, finish_conn]
  order := by rw [finish_log]; exact h.order.append (effect_ne_user _)

theorem Inv.quiet (h : Inv s) (hstate : s.conn.state ≠ .kConnecting) (ho : Quiet s.conn o) :
    Inv (finish s o) := by
  refine h.outcome hstate (by rwa [ho.state]) (by rw [ho.inputBuffer]; exact h.validIn) ho.valid ?_ ?_ ?_ ?_ ?_
  · intro hmem
    rcases ho.functors _ hmem with hf | ⟨_, hf⟩ <;> cases hf
  · rw [ho.state]
    exact h.afterClose
  · rw [ho.rest, ho.state]
    exact h.downs
  · rw [ho.rest, ho.state]
    exact h.closes
  · rw [ho.rest, ho.state]
    exact h.message

/-- A function that closes the connection, and after it calls `closeCallback_` or removes the channel. -/
theorem Inv.close (h : Inv s) (hrest : s.rest = []) (hstate : s.conn.state ≠ .kConnecting)
    (hopen : s.conn.state ≠ .kDisconnected) (hcb : ∀ cb ∈ s.callbacks, cb = .write)
    {c : TcpConnection} (hin : c.inputBuffer.Valid) (hout : c.outputBuffer.Valid) {r : Rest}
    (hr : r = .closeCallback ∨ r = .remove) :
    Inv (finish s { conn := c.closed, effects := [.update], rest := [.connectionDown, r] }) := by
  have hdowns := h.downs
  have hcloses := h.closes
  rw [hrest, if_neg hopen] at hdowns hcloses
  refine h.outcome hstate nofun hin hout nofun (fun _ => hcb) ?_ ?_ ?_
  · rcases hr with rfl | rfl <;> simpa [closed, hrest] using hdowns
  · rcases hr with rfl | rfl <;> simp [closed, hrest] at hcloses ⊢ <;> omega
  · rcases hr with rfl | rfl <;> simp [hrest]

theorem Inv.deliver (h : Inv s) (hrest : s.rest = []) (hstate : s.conn.state ≠ .kConnecting)
    (hopen : s.conn.state ≠ .kDisconnected) {b : Buffer} (hb : b.Valid) :
    Inv (finish s { conn := { s.conn with inputBuffer := b }, rest := [.messageCallback] }) := by
  have hdowns := h.downs
  have hcloses := h.closes
  rw [hrest] at hdowns hcloses
  refine h.outcome hstate hstate hb h.validOut nofun (fun hc => absurd hc hopen) ?_ ?_ (fun _ => hopen)
  · simpa [hrest] using hdowns
  · simpa [hrest] using hcloses

theorem Inv.remove (h : Inv s) (hrest : s.rest = []) (hstate : s.conn.state ≠ .kConnecting) :
    Inv (finish s { conn := s.conn, rest := [.remove] }) := by
  have hdowns := h.downs
  have hcloses := h.closes
  rw [hrest] at hdowns hcloses
  refine h.outcome hstate hstate h.validIn h.validOut nofun h.afterClose ?_ ?_ ?_
  · simpa [hrest] using hdowns
  · simpa [hrest] using hcloses
  · simp [hrest]

theorem Inv.establish (h : Inv s) (hstate : s.conn.state = .kConnecting) (hrest : s.rest = [])
    {l : EventLoop Active ConnFunctor} {inflight : List ConnFunctor} (hl : l.queued = [])
    (hin : inflight = []) {c : Channel} :
    Inv (finish { s with loop := l, inflight } {
      conn := { s.conn with state := .kConnected, channel := c }
      effects := [.update]
      rest := [.connectionUp] }) := by
  have huntouched := h.connecting hstate
  have hdowns := h.downs
  have hcloses := h.closes
  rw [hrest, hstate] at hdowns hcloses
  refine ⟨?_, ?_, ?_, ?_, ?_, ?_, ?_, ?_, ?_, ?_, ?_⟩
  · rw [finish_conn]
    exact h.validIn
  · rw [finish_conn]
    exact h.validOut
  · rw [finish_conn]
    simp
  · intro _ hmem
    simp [pending, hl, hin, functors_cons, Effect.functor] at hmem
  · intro _ _
    rw [finish_callbacks]
    exact huntouched.callbacks
  · rw [finish_callbacks]
    exact h.tail
  · rw [finish_conn]
    simp
  · rw [finish_log, count_append_user (effect_ne_user _), finish_rest, finish_conn]
    simpa [hrest] using hdowns
  · rw [finish_log, count_append_user (effect_ne_user _), finish_rest, finish_conn]
    simpa [hrest] using hcloses
  · rw [finish_conn]
    simp
  · rw [finish_log]
    exact h.order.append (effect_ne_user _)

theorem Inv.loop (h : Inv s) (l : EventLoop Active ConnFunctor) (inflight : List ConnFunctor)
    (hconnecting : s.conn.state = .kConnecting → l.queued ++ inflight = [.connectEstablished] ∧
      ∀ active, l.phase = .dispatching active → ∀ revents, .channel revents ∉ active)
    (honce : .connectEstablished ∉ pending s → .connectEstablished ∉ l.queued ++ inflight)
    (hcalling : ∀ functors, l.phase = .calling functors → s.callbacks = []) :
    Inv { s with loop := l, inflight } where
  validIn := h.validIn
  validOut := h.validOut
  connecting hc :=
    ⟨(h.connecting hc).callbacks, (h.connecting hc).interest, (hconnecting hc).2, (hconnecting hc).1⟩
  once hc := honce (h.once hc)
  calling := hcalling
  tail := h.tail
  afterClose := h.afterClose
  downs := h.downs
  closes := h.closes
  message := h.message
  order := h.order

theorem Inv.call (h : Inv s) (hopen : s.conn.Open) {state : StateE}
    (hstate : state = s.conn.state ∨ state = .kDisconnecting) (es : List Entry)
    (hes : ∀ e ∈ es, ∀ r, e ≠ .user r) :
    Inv { s with conn := { s.conn with state }, log := s.log ++ es } := by
  have hne : s.conn.state ≠ .kConnecting := by rcases hopen with hc | hc <;> simp [hc]
  have hlive : s.conn.state ≠ .kDisconnected := by rcases hopen with hc | hc <;> simp [hc]
  have hne' : state ≠ .kConnecting := by rcases hstate with rfl | rfl <;> simp [hne]
  have hlive' : state ≠ .kDisconnected := by rcases hstate with rfl | rfl <;> simp [hlive]
  have hdowns := h.downs
  have hcloses := h.closes
  rw [if_neg hlive] at hdowns hcloses
  refine ⟨h.validIn, h.validOut, fun hc => absurd hc hne', fun _ => h.once hne, h.calling, h.tail,
    fun hc => absurd hc hlive', ?_, ?_, fun _ => hlive', h.order.append hes⟩
  · rw [count_append_user hes, if_neg hlive']
    exact hdowns
  · rw [count_append_user hes, if_neg hlive']
    exact hcloses

/-! ### The steps -/

/-- A step that keeps the invariant and moves the state forward. -/
def Keeps (s : State) (e : Event) : Prop :=
  ∃ t, step s e = .ok t ∧ s.conn.state ≤ t.conn.state ∧ Inv t

theorem not_open_cases {c : TcpConnection} (h : ¬ c.Open) :
    c.state = .kConnecting ∨ c.state = .kDisconnected := by
  unfold TcpConnection.Open at h
  cases hc : c.state <;> simp_all

theorem open_of_ne {c : TcpConnection} (hne : c.state ≠ .kConnecting) (hlive : c.state ≠ .kDisconnected) :
    c.Open := by
  by_contra h
  rcases not_open_cases h with hc | hc
  · exact hne hc
  · exact hlive hc

theorem keeps_handleCallback (h : Inv s) {r : Option (List UInt8)} {w : WriteResult}
    (hen : Enabled s (.handleCallback r w)) : Keeps s (.handleCallback r w) := by
  obtain ⟨hrest, hcallbacks⟩ := hen
  obtain ⟨cb, callbacks, hcbs⟩ := List.exists_cons_of_ne_nil hcallbacks
  have hne : s.conn.state ≠ .kConnecting := fun hc => hcallbacks (h.connecting hc).callbacks
  have htail : ∀ cb ∈ callbacks, cb = .write := by
    have := h.tail
    rwa [hcbs] at this
  have hpop : Inv { s with callbacks } :=
    { h with
      connecting := fun hc => absurd hc hne
      calling := fun fs hp => absurd (h.calling fs hp) hcallbacks
      tail := fun cb hcb => htail cb (List.mem_of_mem_tail hcb)
      afterClose := fun _ => htail }
  have hstep : ∀ o, s.conn.handleCallback true r w cb = .ok o →
      step s (.handleCallback r w) = .ok (finish { s with callbacks } o) := by
    intro o ho
    simp only [step, hcbs, ho, ok_bind]
    rfl
  cases cb with
  | write =>
      obtain ⟨o, ho, hquiet⟩ := handleWirte_quiet (w := w) h.validOut
      refine ⟨_, hstep o ho, ?_, hpop.quiet hne hquiet⟩
      rw [finish_conn, hquiet.state]
      exact StateE.le_refl _
  | close =>
      have hlive : s.conn.state ≠ .kDisconnected := fun hc => by
        cases h.afterClose hc .close (by simp [hcbs])
      refine ⟨_, hstep _ (handleClose_ok (open_of_ne hne hlive)), ?_,
        hpop.close hrest hne hlive htail h.validIn h.validOut (Or.inl rfl)⟩
      rw [finish_conn]
      exact StateE.le_kDisconnected _
  | read =>
      have hlive : s.conn.state ≠ .kDisconnected := fun hc => by
        cases h.afterClose hc .read (by simp [hcbs])
      obtain ⟨b, hb, hread | hread⟩ := handleRead_cases h.validIn r
      · refine ⟨_, hstep _ hread, ?_, hpop.deliver hrest hne hlive hb⟩
        rw [finish_conn]
        exact StateE.le_refl _
      · have hclose := handleClose_ok (c := { s.conn with inputBuffer := b }) (open_of_ne hne hlive)
        refine ⟨_, hstep _ (hread.trans hclose), ?_,
          hpop.close (c := { s.conn with inputBuffer := b }) hrest hne hlive htail hb h.validOut (Or.inl rfl)⟩
        rw [finish_conn]
        exact StateE.le_kDisconnected _

theorem Inv.setTimers (h : Inv s) (timers : Nat) : Inv { s with timers } :=
  { h with connecting := fun hc => { h.connecting hc with } }

theorem keeps_timerCallback (h : Inv s) (hen : Enabled s .timerCallback) : Keeps s .timerCallback := by
  obtain ⟨hrest, hcallbacks, _, _⟩ := hen
  have hpop := h.setTimers (s.timers - 1)
  have hstep : ∀ o, s.conn.forceCloseInLoop true = .ok o →
      step s .timerCallback = .ok (finish { s with timers := s.timers - 1 } o) := by
    intro o ho
    simp only [step, ho, ok_bind]
    rfl
  by_cases hopen : s.conn.Open
  · have hne : s.conn.state ≠ .kConnecting := by rcases hopen with hc | hc <;> simp [hc]
    have hlive : s.conn.state ≠ .kDisconnected := by rcases hopen with hc | hc <;> simp [hc]
    refine ⟨_, hstep _ ((forceCloseInLoop_open hopen).trans (handleClose_ok hopen)), ?_,
      hpop.close hrest hne hlive ?_ h.validIn h.validOut (Or.inl rfl)⟩
    · rw [finish_conn]
      exact StateE.le_kDisconnected _
    · rw [hcallbacks]
      nofun
  · exact ⟨_, hstep _ (forceCloseInLoop_keep hopen), StateE.le_refl _, hpop⟩

theorem keeps_callFunctor (h : Inv s) {mem : Memory} {w : WriteResult}
    (hen : Enabled s (.callFunctor mem w)) : Keeps s (.callFunctor mem w) := by
  obtain ⟨hrest, hnext⟩ := hen
  obtain ⟨f, hf⟩ := Option.ne_none_iff_exists'.mp hnext
  obtain ⟨functors, hphase⟩ := Phase.nextFunctor_eq_some.mp hf
  have hqueued := EventLoop.queued_calling hphase
  have hstep : ∀ o, s.conn.runFunctor true mem w f = .ok o →
      step s (.callFunctor mem w) = .ok (finish { s with loop := s.loop.callRest functors } o) := by
    intro o ho
    simp only [step, hphase, ho, ok_bind]
    rfl
  by_cases hstate : s.conn.state = .kConnecting
  · -- the only functor on its way is `ConnectEstablished`
    have hpending := (h.connecting hstate).pending
    rw [pending, hqueued, List.cons_append, List.cons_append] at hpending
    obtain ⟨rfl, hnil⟩ := List.cons.inj hpending
    rw [List.append_assoc, List.append_eq_nil_iff, List.append_eq_nil_iff] at hnil
    obtain ⟨rfl, hpend, hin⟩ := hnil
    refine ⟨_, hstep _ (connectEstablished_ok hstate), ?_, h.establish hstate hrest ?_ hin⟩
    · rw [hstate]
      exact StateE.kConnecting_le _
    · rw [EventLoop.queued_callRest, hpend]
      rfl
  · have hpop : Inv { s with loop := s.loop.callRest functors } := by
      refine h.loop _ s.inflight (fun hc => absurd hc hstate) (fun honce hmem => honce ?_)
        (fun _ _ => h.calling _ hphase)
      rw [pending, hqueued]
      rw [EventLoop.queued_callRest] at hmem
      exact List.mem_cons_of_mem _ hmem
    have hcallbacks := h.calling _ hphase
    by_cases hlife : f.IsLifecycle
    swap
    · obtain ⟨o, ho, hquiet⟩ := runFunctor_quiet mem w h.validOut hlife
      refine ⟨_, hstep o ho, ?_, hpop.quiet hstate hquiet⟩
      rw [finish_conn, hquiet.state]
      exact StateE.le_refl _
    cases f with
    | connectEstablished =>
        refine absurd ?_ (h.once hstate)
        rw [pending, hqueued]
        exact List.mem_cons_self
    | connectDestoryed =>
        by_cases hconn : s.conn.state = .kConnected
        · refine ⟨_, hstep _ (connectDestoryed_connected hconn), ?_,
            hpop.close hrest hstate (by simp [hconn]) ?_ h.validIn h.validOut (Or.inr rfl)⟩
          · rw [finish_conn]
            exact StateE.le_kDisconnected _
          · rw [hcallbacks]
            nofun
        · refine ⟨_, hstep _ (connectDestoryed_keep hconn), ?_, hpop.remove hrest hstate⟩
          rw [finish_conn]
          exact StateE.le_refl _
    | forceCloseInLoop =>
        by_cases hopen : s.conn.Open
        · have hlive : s.conn.state ≠ .kDisconnected := by rcases hopen with hc | hc <;> simp [hc]
          refine ⟨_, hstep _ ((forceCloseInLoop_open hopen).trans (handleClose_ok hopen)), ?_,
            hpop.close hrest hstate hlive ?_ h.validIn h.validOut (Or.inl rfl)⟩
          · rw [finish_conn]
            exact StateE.le_kDisconnected _
          · rw [hcallbacks]
            nofun
        · exact ⟨_, hstep _ (forceCloseInLoop_keep hopen), StateE.le_refl _, hpop⟩
    | _ => exact (hlife : False).elim

theorem keeps_establish (h : Inv s) (hen : Enabled s .establish) : Keeps s .establish := by
  obtain ⟨hrest, _, hmem⟩ := hen
  have hstate : s.conn.state = .kConnecting := by
    by_contra hne
    exact h.once hne (List.mem_append_right _ hmem)
  have hpending := (h.connecting hstate).pending
  -- the one functor on its way is not in the queue
  have hsplit : s.loop.queued = [] ∧ s.inflight = [.connectEstablished] := by
    rcases List.append_eq_singleton_iff.mp hpending with ⟨hq, hin⟩ | ⟨_, hin⟩
    · exact ⟨hq, hin⟩
    · rw [hin] at hmem
      cases hmem
  have hstep : ∀ o, s.conn.connectEstablished true = .ok o →
      step s .establish = .ok (finish { s with inflight := s.inflight.erase .connectEstablished } o) := by
    intro o ho
    simp only [step, ho, ok_bind]
    rfl
  refine ⟨_, hstep _ (connectEstablished_ok hstate), ?_, h.establish (l := s.loop) hstate hrest hsplit.1 ?_⟩
  · rw [hstate]
    exact StateE.kConnecting_le _
  · rw [hsplit.2]
    rfl

theorem keeps_userCode (h : Inv s) (hen : Enabled s .userCode) : Keeps s .userCode := by
  obtain ⟨r, rest, hrest⟩ := List.exists_cons_of_ne_nil hen
  have hdowns := h.downs
  have hcloses := h.closes
  rw [hrest, List.count_cons] at hdowns hcloses
  -- no message was delivered late: the connection was open when `handleRead` returned
  have horder : MessagesFirst (s.log ++ [.user r]) := by
    refine List.pairwise_append.mpr ⟨h.order, List.pairwise_singleton _ _, ?_⟩
    rintro a ha b hb rfl
    rw [List.mem_singleton] at hb
    subst hb
    rintro ⟨⟩
    have hlive := h.message (by simp [hrest])
    rw [if_neg hlive] at hdowns
    exact absurd (List.count_pos_iff.mpr ha) (by omega)
  have hmessage : .messageCallback ∈ rest → s.conn.state ≠ .kDisconnected := fun hm =>
    h.message (by rw [hrest]; exact List.mem_cons_of_mem _ hm)
  have hcount : ∀ r', (s.log ++ [Entry.user r]).count (.user r') + rest.count r' =
      s.log.count (.user r') + (rest.count r' + if r == r' then 1 else 0) := by
    intro r'
    rw [List.count_append, List.count_singleton]
    by_cases hr : r = r'
    · simp [hr]
      omega
    · simp [hr]
  by_cases hr : r = .closeCallback
  · subst hr
    have hclosed : s.conn.state = .kDisconnected := by
      by_contra hne
      rw [if_neg hne] at hcloses
      simp at hcloses
    have hstep : step s .userCode = .ok { s with
        rest
        log := s.log ++ [.user .closeCallback]
        inflight := s.inflight ++ [.connectDestoryed] } := by
      simp only [step, hrest]
    refine ⟨_, hstep, StateE.le_refl _, ?_⟩
    refine ⟨h.validIn, h.validOut, fun hc => ?_, fun hc hmem => ?_, h.calling, h.tail, h.afterClose, ?_, ?_,
      hmessage, horder⟩
    · rw [hclosed] at hc
      cases hc
    · refine h.once hc ?_
      simpa [pending] using hmem
    · rw [hcount]
      exact hdowns
    · rw [hcount]
      exact hcloses
  · have hstep : step s .userCode = .ok { s with rest, log := s.log ++ [.user r] } := by
      cases r <;> first | exact absurd rfl hr | simp only [step, hrest]
    refine ⟨_, hstep, StateE.le_refl _, ?_⟩
    refine ⟨h.validIn, h.validOut, fun hc => { h.connecting hc with }, h.once, h.calling, h.tail,
      h.afterClose, ?_, ?_, hmessage, horder⟩
    · rw [hcount]
      exact hdowns
    · rw [hcount]
      exact hcloses

theorem keeps_call (h : Inv s) {c : Call} {mem : Memory} {w : WriteResult} : Keeps s (.call c mem w) := by
  rcases call_cases s.conn c with hnone | ⟨hopen, state, t, hstate, hcall, ht⟩
  · exact ⟨s, by simp only [step, hnone], StateE.le_refl _, h⟩
  have hne : s.conn.state ≠ .kConnecting := by rcases hopen with hc | hc <;> simp [hc]
  have hne' : state ≠ .kConnecting := by rcases hstate with rfl | rfl <;> simp [hne]
  have hle : s.conn.state ≤ state := by
    rcases hstate with rfl | rfl
    · exact StateE.le_refl _
    · rcases hopen with hc | hc <;> rw [hc] <;> decide
  rcases ht with rfl | ⟨f, rfl, hf⟩
  · have hstep : step s (.call c mem w) = .ok { s with
        conn := { s.conn with state }
        loop := s.loop.queueInLoop true .forceCloseInLoop } := by
      simp only [step, hcall]
    refine ⟨_, hstep, hle, ?_⟩
    have hinv := h.call hopen hstate [] nofun
    rw [List.append_nil] at hinv
    refine hinv.loop _ s.inflight (fun hc => absurd hc hne') (fun honce hmem => honce ?_) ?_
    · rw [EventLoop.queued_queueInLoop, List.append_assoc, List.mem_append, List.mem_append] at hmem
      rcases hmem with hq | hf | hin
      · exact List.mem_append_left _ hq
      · cases List.mem_singleton.mp hf
      · exact List.mem_append_right _ hin
    · intro fs hp
      rw [EventLoop.queueInLoop_phase] at hp
      exact h.calling fs hp
  · have hinv := h.call hopen hstate _ (accept_ne_user c)
    obtain ⟨o, ho, hquiet⟩ := runFunctor_quiet (c := { s.conn with state }) mem w h.validOut hf
    refine ⟨finish { s with log := s.log ++ accept c } o, ?_, ?_, hinv.quiet hne' hquiet⟩
    · simp only [step, hcall, ho, ok_bind]
      rfl
    · rw [finish_conn, hquiet.state]
      exact hle

theorem keeps_otherCall (h : Inv s) {c : Call} : Keeps s (.otherCall c) := by
  rcases call_cases s.conn c with hnone | ⟨hopen, state, t, hstate, hcall, ht⟩
  · exact ⟨s, by simp only [step, hnone], StateE.le_refl _, h⟩
  have hle : s.conn.state ≤ state := by
    rcases hstate with rfl | rfl
    · exact StateE.le_refl _
    · rcases hopen with hc | hc <;> rw [hc] <;> decide
  have hne : s.conn.state ≠ .kConnecting := by rcases hopen with hc | hc <;> simp [hc]
  have hne' : state ≠ .kConnecting := by rcases hstate with rfl | rfl <;> simp [hne]
  have hf : t.functor ≠ .connectEstablished := by
    rcases ht with rfl | ⟨f, rfl, hf⟩
    · nofun
    · rintro rfl
      exact hf trivial
  refine ⟨{ s with
    conn := { s.conn with state }
    inflight := s.inflight ++ [t.functor]
    log := s.log ++ accept c }, ?_, hle, ?_⟩
  · rcases ht with rfl | ⟨f, rfl, _⟩ <;> simp only [step, hcall] <;> rfl
  · refine (h.call hopen hstate _ (accept_ne_user c)).loop s.loop _ (fun hc => absurd hc hne')
      (fun honce hmem => honce ?_) h.calling
    rw [← List.append_assoc, List.mem_append, List.mem_singleton] at hmem
    exact hmem.resolve_right fun he => hf he.symm

theorem keeps_otherPush (h : Inv s) {i : Nat} (hen : Enabled s (.otherPush i)) : Keeps s (.otherPush i) := by
  have hget : s.inflight[i]? = some (s.inflight.get ⟨i, hen⟩) := List.getElem?_eq_getElem hen
  generalize s.inflight.get ⟨i, hen⟩ = f at hget
  refine ⟨{ s with loop := s.loop.queueInLoop false f, inflight := s.inflight.eraseIdx i },
    by simp only [step, hget], StateE.le_refl _, h.loop _ _ (fun hc => ?_) (fun honce hmem => honce ?_) ?_⟩
  · obtain ⟨_, _, hactive, hpending⟩ := h.connecting hc
    refine ⟨?_, fun active hp => hactive active (by rwa [EventLoop.queueInLoop_phase] at hp)⟩
    -- the one functor on its way is the one that is pushed
    rcases List.append_eq_singleton_iff.mp hpending with ⟨hq, hin⟩ | ⟨_, hin⟩
    · rw [hin] at hget ⊢
      cases i with
      | zero =>
          cases hget
          simp [hq]
      | succ i => simp at hget
    · rw [hin] at hget
      simp at hget
  · rw [EventLoop.queued_queueInLoop, List.append_assoc, List.mem_append, List.mem_append] at hmem
    rcases hmem with hq | hf | hin
    · exact List.mem_append_left _ hq
    · cases List.mem_singleton.mp hf
      exact List.mem_append_right _ (List.mem_of_getElem? hget)
    · exact List.mem_append_right _ (List.mem_of_mem_eraseIdx hin)
  · intro fs hp
    rw [EventLoop.queueInLoop_phase] at hp
    exact h.calling fs hp

/-- A step that only moves the loop's thread, to a phase in which no channel of an unestablished connection
is dispatched. -/
theorem Inv.phase (h : Inv s) {l : EventLoop Active ConnFunctor} (hqueued : l.queued = s.loop.queued)
    (hactive : s.conn.state = .kConnecting → ∀ active, l.phase = .dispatching active →
      ∀ revents, .channel revents ∉ active)
    (hcalling : ∀ functors, l.phase = .calling functors → s.callbacks = []) :
    Inv { s with loop := l } := by
  refine h.loop _ s.inflight (fun hc => ⟨?_, hactive hc⟩) (fun honce => ?_) hcalling
  · rw [hqueued]
    exact (h.connecting hc).pending
  · rwa [hqueued]

theorem keeps_handleEvent (h : Inv s) (hen : Enabled s .handleEvent) (hgood : NoEventAfterClose s .handleEvent) :
    Keeps s .handleEvent := by
  obtain ⟨_, hcallbacks, hnext⟩ := hen
  obtain ⟨a, ha⟩ := Option.ne_none_iff_exists'.mp hnext
  obtain ⟨active, hphase⟩ := Phase.nextChannel_eq_some.mp ha
  have hqueued : (s.loop.dispatch active).queued = s.loop.queued :=
    (EventLoop.queued_dispatching hphase).symm
  have hmove : Inv { s with loop := s.loop.dispatch active } := by
    refine h.phase hqueued (fun hc active' hp revents hmem => ?_) nofun
    cases hp
    exact (h.connecting hc).active _ hphase revents (List.mem_cons_of_mem _ hmem)
  cases a with
  | channel revents =>
      have hstep : step s .handleEvent =
          .ok { s with loop := s.loop.dispatch active, callbacks := handleEvent revents } := by
        simp only [step, hphase]
      obtain ⟨hclosed, hone⟩ : Harmless s.conn.state (some (.channel revents)) := ha ▸ hgood
      refine ⟨_, hstep, StateE.le_refl _, { hmove with
        connecting := fun hc => ?_
        calling := nofun
        tail := handleEvent_tail hone
        afterClose := fun hc => handleEvent_write (hclosed hc).1 (hclosed hc).2 }⟩
      exact absurd List.mem_cons_self ((h.connecting hc).active _ hphase revents)
  | timerfd =>
      refine ⟨{ s with loop := s.loop.dispatch active }, ?_, StateE.le_refl _, hmove⟩
      simp only [step, hphase]
  | other =>
      refine ⟨{ s with loop := s.loop.dispatch active }, ?_, StateE.le_refl _, hmove⟩
      simp only [step, hphase]

theorem keeps_retrieve (h : Inv s) {len : Nat} (hen : Enabled s (.retrieve len)) : Keeps s (.retrieve len) := by
  obtain ⟨b, hb, hvalid, _⟩ := Buffer.retrieve_spec h.validIn hen.2
  have hstep : step s (.retrieve len) = .ok { s with conn := { s.conn with inputBuffer := b } } := by
    simp only [step, hb, ok_bind]
    rfl
  exact ⟨_, hstep, StateE.le_refl _,
    { h with validIn := hvalid, connecting := fun hc => { h.connecting hc with } }⟩

theorem step_keeps (s : State) (e : Event) (h : Inv s) (hen : Enabled s e) (hgood : NoEventAfterClose s e) :
    Keeps s e := by
  cases e with
  | enterLoop =>
      have hqueued := EventLoop.queued_beforeLoop hen
      exact ⟨_, rfl, StateE.le_refl _, h.phase (l := s.loop.enterPoll) hqueued.symm nofun nofun⟩
  | poll active =>
      obtain ⟨hphase, _, hready⟩ := hen
      have hqueued := EventLoop.queued_polling hphase
      refine ⟨_, rfl, StateE.le_refl _, h.phase (l := s.loop.dispatch active) hqueued.symm ?_ nofun⟩
      intro hc active' hp revents hmem
      cases hp
      exact (hready _ hmem).1 (h.connecting hc).interest
  | handleEvent => exact keeps_handleEvent h hen hgood
  | handleCallback r w => exact keeps_handleCallback h hen
  | timerCallback => exact keeps_timerCallback h hen
  | swapFunctors =>
      obtain ⟨_, hcallbacks, hphase⟩ := hen
      have hqueued := EventLoop.queued_dispatching hphase
      refine ⟨_, rfl, StateE.le_refl _, h.phase (l := s.loop.swapFunctors) ?_ nofun fun _ _ => hcallbacks⟩
      rw [EventLoop.queued_swapFunctors, hqueued]
  | callFunctor mem w => exact keeps_callFunctor h hen
  | endFunctors =>
      have hqueued := EventLoop.queued_calling hen.2
      exact ⟨_, rfl, StateE.le_refl _, h.phase (l := s.loop.endFunctors) hqueued.symm nofun nofun⟩
  | userCode => exact keeps_userCode h hen
  | call c mem w => exact keeps_call h
  | retrieve len => exact keeps_retrieve h hen
  | establish => exact keeps_establish h hen
  | otherCall c => exact keeps_otherCall h
  | otherPush i => exact keeps_otherPush h hen

/-- **When a connection closes once.** In every run of a connection on its loop, over all batches of ready
channels, answers of the socket, functors, timers, user code and calls from other threads, in which
`HandleEvent` never finds the connection closed with a hang-up or something to read, nor a hang-up
together with something to read: no assertion fails, the state only moves forward, the callback for the
closed connection and `closeCallback_` are called at most once, and no message is delivered after. -/
theorem orderly_of_along (c : TcpConnection) (hin : c.inputBuffer.Valid) (hout : c.outputBuffer.Valid)
    (hstate : c.state = .kConnecting) (hnone : c.channel.events = kNoneEvent) (es : List Event)
    (hes : Along step Enabled (init c) es) (hgood : Along step NoEventAfterClose (init c) es) :
    Holds step noError Orderly (init c) es := by
  refine holds_of_along (I := Inv) (fun s e h hG => ?_) (init_inv hin hout hstate hnone)
    (along_and.mpr ⟨hes, hgood⟩)
  obtain ⟨t, ht, hle, hinv⟩ := step_keeps s e h hG.1 hG.2
  exact StepHolds.of_ok ht ⟨hinv.orderly hle, hinv⟩

/-- A new connection with small buffers. -/
def fresh : TcpConnection :=
  { TcpConnection.new 7 64 true true with inputBuffer := Buffer.new 4, outputBuffer := Buffer.new 4 }

/-- The connection comes up, sends in two parts, reads, and is closed by another thread. -/
def readWriteClose : List Event :=
  [.otherPush 0, .enterLoop, .poll [.other], .handleEvent, .swapFunctors, .callFunctor (fun _ => 0) (.ok 0),
    .userCode, .call (.send 0 3) (fun _ => 7) (.ok 1), .otherCall .forceClose, .endFunctors,
    .poll [.channel (pollIn ||| pollOut), .timerfd], .handleEvent, .handleCallback (some [1, 2]) (.ok 0),
    .userCode, .retrieve 1, .handleCallback none (.ok 2), .handleEvent, .otherPush 0, .swapFunctors,
    .callFunctor (fun _ => 0) (.ok 0), .callFunctor (fun _ => 0) (.ok 0), .userCode, .userCode, .endFunctors]

theorem orderly_of_along_run : Holds step noError Orderly (init fresh) readWriteClose :=
  orderly_of_along fresh (Buffer.new_valid (by decide)) (Buffer.new_valid (by decide)) rfl rfl readWriteClose
    (by decide) (by decide)

/-- A timer closes the connection in a batch in which its channel is ready as well. -/
def closedInBatch : List Event :=
  [.otherPush 0, .enterLoop, .poll [.other], .handleEvent, .swapFunctors, .callFunctor (fun _ => 0) (.ok 0),
    .userCode, .call .forceCloseWithDelay (fun _ => 0) (.ok 0), .endFunctors,
    .poll [.timerfd, .channel pollIn], .timerCallback, .userCode, .userCode, .handleEvent, .handleEvent]

/-- After that batch a read of `0` fails the assertion of `handleClose`, and any other is delivered to the
user of the closed connection. -/
theorem closed_in_batch :
    Along step Enabled (init fresh) (closedInBatch ++ [.handleCallback (some []) (.ok 0)]) ∧
      ¬ Holds step noError Orderly (init fresh) (closedInBatch ++ [.handleCallback (some []) (.ok 0)]) ∧
    Along step Enabled (init fresh) (closedInBatch ++ [.handleCallback (some [1]) (.ok 0), .userCode]) ∧
      ¬ Holds step noError Orderly (init fresh)
        (closedInBatch ++ [.handleCallback (some [1]) (.ok 0), .userCode]) := by
  decide +kernel

end ConnLoop

end OulaServer
