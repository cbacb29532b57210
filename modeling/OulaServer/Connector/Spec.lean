import OulaServer.Connector.Loop

/-!
# What a connector's steps keep

`Inv` is the invariant of a connector on its loop. An attempt in progress owns a socket whose channel is
registered with the poller, and nothing else is registered. A channel of an attempt that is over waits for
the one `resetChannel` that is queued for it. Every socket is owned by the attempt, was closed once or was
handed over once.

A step either starts an attempt (`attempt_cases`), ends one (`leave_cases`), releases `channel_`, or does none of
these; the assertions of `startInLoop` and `connecting` are the only ones that can fail.
-/

namespace OulaServer

namespace ConnectorLoop

open Connector EpollPoller

/-! ### Sockets -/

/-- The channel of the attempt in progress. -/
def attempt (s : State) : Option (Nat × Channel) :=
  if s.connector.state = .kConnecting then s.connector.channel else none

def Entry.closes (name : Nat) : Entry → Bool
  | closed name' _ => name' == name
  | handed _ _ _ | badClose _ => false

def Entry.hands (name : Nat) : Entry → Bool
  | handed name' _ _ => name' == name
  | closed _ _ | badClose _ => false

/-- The times that the connector closed the socket, and handed it over. -/
def closes (s : State) (name : Nat) : Nat := s.log.countP (Entry.closes name)

def hands (s : State) (name : Nat) : Nat := s.log.countP (Entry.hands name)

/-- Nothing was registered when it was closed or handed over, it was handed over only with `enableConnect_`,
and nothing was closed that was not open. -/
def Entry.Clean : Entry → Prop
  | closed _ registered => registered = false
  | handed _ registered enableConnect => registered = false ∧ enableConnect = true
  | badClose _ => False

instance : (e : Entry) → Decidable e.Clean
  | .closed _ _ => inferInstanceAs (Decidable (_ = _))
  | .handed _ _ _ => inferInstanceAs (Decidable (_ ∧ _))
  | .badClose _ => .isFalse id

/-- The attempt in progress has the socket. -/
def attempts (s : State) (name : Nat) : Nat := if (attempt s).map Prod.fst = some name then 1 else 0

/-- What became of a socket, counted. -/
def uses (s : State) (name : Nat) : Nat := attempts s name + closes s name + hands s name

/-- The channel for which a functor would empty `channel_`. -/
def resetOf : Functor → Option Nat
  | .resetChannel name => some name
  | .startInLoop | .stopInLoop => none

/-- The channels for which `resetChannel` is queued. -/
def resets (s : State) : List Nat := s.loop.queued.filterMap resetOf

/-! ### The invariant -/

structure Inv (s : State) : Prop where
  attempt : ∀ name ch, ConnectorLoop.attempt s = some (name, ch) →
    s.poller.Registered name ch ∧ ch.events = kWriteEvent ∧ s.fds ch.fd = some name
  connecting : s.connector.state = .kConnecting → s.connector.channel ≠ none
  others : ∀ fd, (∀ c, ConnectorLoop.attempt s = some c → c.2.fd ≠ fd) →
    s.poller.channels fd = none ∧ s.poller.epollSet fd = none
  resets : ConnectorLoop.resets s =
    if s.connector.state = .kConnecting then [] else (s.connector.channel.map Prod.fst).toList
  inflight : ∀ f ∈ s.inflight, resetOf f = none
  active : ∀ active, s.loop.phase = .dispatching active → ∀ name revents, .channel name revents ∈ active →
    (ConnectorLoop.attempt s).map Prod.fst = some name
  single : ∀ active, s.loop.phase = .dispatching active → (active.filter Active.isChannel).length ≤ 1
  callback : s.connector.newConnectionCallback = true
  account : ∀ name, uses s name = if name < s.sockets then 1 else 0
  clean : ∀ e ∈ s.log, e.Clean

theorem init_inv : Inv init := by
  refine ⟨nofun, nofun, fun _ _ => ⟨rfl, rfl⟩, rfl, nofun, nofun, nofun, rfl, fun name => ?_, nofun⟩
  rfl

variable {s : State} {name : Nat} {ch : Channel} {f : Functor}

theorem attempt_connecting (h : s.connector.state = .kConnecting) : attempt s = s.connector.channel := if_pos h

theorem attempt_idle (h : s.connector.state ≠ .kConnecting) : attempt s = none := if_neg h

theorem attempt_eq_some {c : Nat × Channel} (h : attempt s = some c) :
    s.connector.state = .kConnecting ∧ s.connector.channel = some c := by
  unfold attempt at h
  split_ifs at h with hstate
  exact ⟨hstate, h⟩

theorem Inv.idle (h : Inv s) (hstate : s.connector.state ≠ .kConnecting) (fd : Int) :
    s.poller.channels fd = none ∧ s.poller.epollSet fd = none :=
  h.others fd fun c hc => by
    rw [attempt_idle hstate] at hc
    cases hc

theorem Inv.account_new (h : Inv s) {t : State} (hsockets : t.sockets = s.sockets + 1)
    (huses : ∀ name, uses t name = uses s name + if s.sockets = name then 1 else 0) (name : Nat) :
    uses t name = if name < t.sockets then 1 else 0 := by
  have haccount := h.account name
  rw [huses, hsockets]
  rcases lt_trichotomy name s.sockets with hlt | rfl | hgt
  · rw [haccount, if_pos hlt, if_neg hlt.ne', if_pos (Nat.lt_succ_of_lt hlt)]
  · rw [haccount, if_neg (lt_irrefl _), if_pos rfl, if_pos (Nat.lt_succ_self _)]
  · rw [haccount, if_neg hgt.not_gt, if_neg hgt.ne, if_neg (by omega)]

theorem Inv.loop (h : Inv s) {l : EventLoop Active Functor} {timers : Nat} {inflight : List Functor}
    (hresets : l.queued.filterMap resetOf = ConnectorLoop.resets s) (hin : ∀ f ∈ inflight, resetOf f = none)
    (hactive : ∀ active, l.phase = .dispatching active → (active.filter Active.isChannel).length ≤ 1 ∧
      ∀ name revents, .channel name revents ∈ active → (ConnectorLoop.attempt s).map Prod.fst = some name) :
    Inv { s with loop := l, timers, inflight } :=
  { h with
    resets := hresets.trans h.resets
    inflight := hin
    active := fun active hphase => (hactive active hphase).2
    single := fun active hphase => (hactive active hphase).1 }

theorem Inv.setTimers (h : Inv s) (timers : Nat) : Inv { s with timers } := { h with }

theorem Inv.flag (h : Inv s) (enableConnect : Bool) :
    Inv { s with connector := { s.connector with enableConnect } } :=
  { h with }

theorem Inv.rest (h : Inv s) (hstate : s.connector.state ≠ .kConnecting) (enableConnect : Bool) (retryDelayMs : Nat) :
    Inv { s with connector := { s.connector with state := .kDisconnected, enableConnect, retryDelayMs } } := by
  have hidle := attempt_idle hstate
  refine ⟨nofun, nofun, fun fd _ => h.idle hstate fd, ?_, h.inflight, ?_, h.single, h.callback, ?_, h.clean⟩
  · have hresets := h.resets
    rw [if_neg hstate] at hresets
    exact hresets
  · intro active hphase name revents hmem
    have hactive := h.active active hphase name revents hmem
    rw [hidle] at hactive
    cases hactive
  · intro name
    have haccount := h.account name
    unfold uses attempts at haccount
    rw [hidle] at haccount
    exact haccount

/-! ### What a function leaves -/

/-- The functors that start an attempt when they are called. -/
def starts (s : State) : Nat := (pending s).count .startInLoop

/-- What a function of the connector leaves besides the sockets. -/
structure Leaves (s t : State) (state : States) (timers : Nat) : Prop where
  state : t.connector.state = state
  enableConnect : t.connector.enableConnect = s.connector.enableConnect
  timers : t.timers = s.timers + timers
  starts : starts t = starts s

theorem registered_idle (h : Inv s) (hstate : s.connector.state ≠ .kConnecting) (fd : Int) :
    registered s fd = false := by
  unfold registered
  rw [(h.idle hstate fd).1, (h.idle hstate fd).2]
  rfl

theorem closes_append (s : State) (e : Entry) (name : Nat) {t : State} (ht : t.log = s.log ++ [e]) :
    closes t name = closes s name + if e.closes name then 1 else 0 := by
  unfold closes
  rw [ht, List.countP_append, List.countP_singleton]

theorem hands_append (s : State) (e : Entry) (name : Nat) {t : State} (ht : t.log = s.log ++ [e]) :
    hands t name = hands s name + if e.hands name then 1 else 0 := by
  unfold hands
  rw [ht, List.countP_append, List.countP_singleton]

theorem onPoller_ok {f : EpollPoller Nat → Nat → Channel → Except Abort (EpollPoller Nat × Channel)}
    (hc : s.connector.channel = some (name, ch)) {p : EpollPoller Nat} {ch' : Channel}
    (hf : f s.poller name ch = .ok (p, ch')) : onPoller s f = .ok { s with
      poller := p
      connector := { s.connector with channel := some (name, ch') } } := by
  simp only [onPoller, hc, hf, ok_bind]
  rfl

/-! ### An attempt that is refused -/

theorem perform_refused {fd : Int} (hfd : s.fds fd = none) (hreg : registered s fd = false) (rest : List Effect) :
    (.socket s.sockets fd :: .close fd :: rest).foldlM perform s = rest.foldlM perform { s with
      sockets := s.sockets + 1
      log := s.log ++ [.closed s.sockets false] } := by
  have hfds : Function.update (Function.update s.fds fd (some s.sockets)) fd none = s.fds := by
    rw [Function.update_idem, ← hfd, Function.update_eq_self]
  have hreg' : registered { s with fds := Function.update s.fds fd (some s.sockets), sockets := s.sockets + 1 } fd =
      false := hreg
  simp only [List.foldlM_cons, perform, ok_bind, close, Function.update_self, hfds, hreg']

theorem Inv.refused (h : Inv s) :
    Inv { s with sockets := s.sockets + 1, log := s.log ++ [.closed s.sockets false] } :=
  { h with
    account := by
      refine h.account_new rfl fun name => ?_
      unfold uses
      rw [closes_append s _ name rfl, hands_append s _ name rfl]
      change attempts s name + (closes s name + if (s.sockets == name) = true then 1 else 0) + (hands s name + 0) = _
      simp only [beq_iff_eq]
      omega
    clean := by
      intro e he
      rcases List.mem_append.mp he with he | he
      · exact h.clean e he
      · cases List.mem_singleton.mp he
        rfl }

/-! ### An attempt that starts -/

theorem perform_started (h : Inv s) (hstate : s.connector.state ≠ .kConnecting) (fd : Int) :
    ∃ p ch, p.Registered s.sockets ch ∧ ch.fd = fd ∧ ch.events = kWriteEvent ∧ SameBut fd s.poller p ∧
      finish s { connector := s.connector.attempting s.sockets fd, effects := [.socket s.sockets fd, .update] } =
        .ok { s with
          connector := { s.connector with state := .kConnecting, channel := some (s.sockets, ch) }
          poller := p
          fds := Function.update s.fds fd (some s.sockets)
          sockets := s.sockets + 1 } := by
  have hreg : s.poller.Registered s.sockets (Channel.new fd) :=
    ⟨rfl, (h.idle hstate fd).1, (h.idle hstate fd).2⟩
  obtain ⟨p, ch, hupdate, hreg', hfd, hev, _, hsame⟩ := updateChannel_spec hreg (e := kWriteEvent) (Or.inl (by decide))
  refine ⟨p, ch, hreg', hfd, hev, hsame, ?_⟩
  have hdeclare : (Channel.new fd).declare .enableWriteEvent = { Channel.new fd with events := kWriteEvent } := by
    have happly : ChannelOp.apply kNoneEvent .enableWriteEvent = kWriteEvent := by decide
    simp only [Channel.declare, Channel.new, happly]
  simp only [finish, List.foldlM_cons, List.foldlM_nil, perform, ok_bind, onPoller, attempting, hdeclare, hupdate]
  rfl

theorem Inv.started (h : Inv s) (hstate : s.connector.state ≠ .kConnecting) (hchannel : s.connector.channel = none)
    {p : EpollPoller Nat} {fd : Int} (hreg : p.Registered s.sockets ch) (hfd : ch.fd = fd)
    (hev : ch.events = kWriteEvent) (hsame : SameBut fd s.poller p) :
    Inv { s with
      connector := { s.connector with state := .kConnecting, channel := some (s.sockets, ch) }
      poller := p
      fds := Function.update s.fds fd (some s.sockets)
      sockets := s.sockets + 1 } := by
  have hidle := attempt_idle hstate
  refine ⟨?_, nofun, ?_, ?_, h.inflight, ?_, h.single, h.callback, h.account_new rfl fun name => ?_, h.clean⟩
  · rintro name ch' ⟨⟩
    refine ⟨hreg, hev, ?_⟩
    rw [hfd]
    exact Function.update_self ..
  · intro fd' hfd'
    have hne : fd' ≠ fd := fun he => hfd' _ rfl (hfd.trans he.symm)
    exact ⟨(hsame.channels fd' hne).trans (h.idle hstate fd').1, (hsame.epollSet fd' hne).trans (h.idle hstate fd').2⟩
  · have hresets := h.resets
    rw [if_neg hstate, hchannel] at hresets
    exact hresets
  · intro active hphase name revents hmem
    have hactive := h.active active hphase name revents hmem
    rw [hidle] at hactive
    cases hactive
  · have hnone : attempts s name = 0 := by simp [attempts, hidle]
    unfold uses
    rw [hnone]
    change (if some s.sockets = some name then 1 else 0) + closes s name + hands s name = _
    simp only [Option.some.injEq]
    omega

/-- `startInLoop` on the loop's thread. -/
def runStart (s : State) (a : Connect) : Except Abort State := do
  let o ← s.connector.startInLoop true s.sockets a
  finish s o

/-- How `startInLoop` starts an attempt. -/
inductive Starts (s : State) (a : Connect) : States → Nat → Prop where
  | disabled (h : s.connector.enableConnect = false) : Starts s a .kDisconnected 0
  | connecting (h : s.connector.enableConnect = true) (ha : a.isConnecting = true) : Starts s a .kConnecting 0
  | retry (h : s.connector.enableConnect = true) (ha : a.isConnecting = false) (hretry : a.isRetry = true) :
      Starts s a .kDisconnected 1
  | fails (h : s.connector.enableConnect = true) (ha : a.isConnecting = false) (hretry : a.isRetry = false) :
      Starts s a .kDisconnected 0

theorem runStart_busy (h : s.connector.state ≠ .kDisconnected) {a : Connect} :
    runStart s a = .error .startInLoop := by
  simp only [runStart, startInLoop_busy h]
  rfl

theorem runStart_unreleased (h : s.connector.state = .kDisconnected) (hon : s.connector.enableConnect = true)
    {a : Connect} (ha : a.isConnecting = true) (hch : s.connector.channel ≠ none) :
    runStart s a = .error .connecting := by
  simp only [runStart, startInLoop_connect h hon, connect_unreleased ha hch]
  rfl

/-- `startInLoop` of a connector at rest, whose `channel_` is released if an attempt gets under way. -/
theorem runStart_ok (h : Inv s) (hstate : s.connector.state = .kDisconnected) {a : Connect}
    (hfd : s.fds a.sockfd = none)
    (hch : s.connector.enableConnect = true → a.isConnecting = true → s.connector.channel = none) :
    ∃ t state timers, runStart s a = .ok t ∧ Inv t ∧ Starts s a state timers ∧ Leaves s t state timers := by
  have hne : s.connector.state ≠ .kConnecting := by
    rw [hstate]
    nofun
  cases hon : s.connector.enableConnect with
  | false =>
      refine ⟨s, .kDisconnected, 0, ?_, h, .disabled hon, hstate, rfl, rfl, rfl⟩
      simp only [runStart, startInLoop_disabled hstate hon]
      rfl
  | true =>
      cases ha : a.isConnecting with
      | true =>
          obtain ⟨p, ch, hreg, hchfd, hev, hsame, hfinish⟩ := perform_started h hne a.sockfd
          refine ⟨_, .kConnecting, 0, ?_, h.started hne (hch hon ha) hreg hchfd hev hsame, .connecting hon ha, rfl,
            rfl, rfl, rfl⟩
          simp only [runStart, startInLoop_connect hstate hon, connect_connecting ha (hch hon ha), ok_bind]
          exact hfinish
      | false =>
          have hreg := registered_idle h hne a.sockfd
          cases hretry : a.isRetry with
          | true =>
              let retryDelayMs := min (s.connector.retryDelayMs * 2) kMaxRetryDelayMs
              let t : State := { s with
                connector := { s.connector with state := .kDisconnected, retryDelayMs }
                timers := s.timers + 1
                sockets := s.sockets + 1
                log := s.log ++ [.closed s.sockets false] }
              have hinv : Inv t := (h.refused.rest hne s.connector.enableConnect retryDelayMs).setTimers (s.timers + 1)
              refine ⟨t, .kDisconnected, 1, ?_, hinv, .retry hon ha hretry, rfl, rfl, rfl, rfl⟩
              simp only [runStart, startInLoop_connect hstate hon, connect_retry ha hretry, ok_bind, finish,
                retry_on hon]
              exact perform_refused (s := { s with connector := t.connector }) hfd hreg
                [.runAfter s.connector.retryDelayMs]
          | false =>
              refine ⟨_, .kDisconnected, 0, ?_, h.refused, .fails hon ha hretry, hstate, rfl, rfl, rfl⟩
              simp only [runStart, startInLoop_connect hstate hon, connect_fails ha hretry, ok_bind, finish]
              exact perform_refused hfd hreg []

/-! ### An attempt that ends -/

/-- `removeAndResetChannel` of an attempt in progress: nothing is registered any more, and `resetChannel` is
queued for the channel. -/
theorem perform_removal (h : Inv s) (hattempt : attempt s = some (name, ch)) {c : Connector}
    (hc : c.channel = some (name, ch.declare .disableAllEvent)) (rest : List Effect) :
    ∃ p ch', (∀ fd, p.channels fd = none ∧ p.epollSet fd = none) ∧
      (removal name ++ rest).foldlM perform { s with connector := c } = rest.foldlM perform { s with
        connector := { c with channel := some (name, ch') }
        poller := p
        loop := s.loop.queueInLoop true (.resetChannel name) } := by
  obtain ⟨hreg, hev, _⟩ := h.attempt name ch hattempt
  have hne : ch.events ≠ kNoneEvent := by
    rw [hev]
    decide
  obtain ⟨p₁, ch₁, hupdate, hreg₁, hfd₁, hev₁, hstatus₁, hsame₁⟩ :=
    updateChannel_spec hreg (e := kNoneEvent) (Or.inr hne)
  obtain ⟨p₂, ch₂, hremove, hreg₂, hfd₂, _, hstatus₂, hsame₂⟩ :=
    removeChannel_spec hreg₁ (hreg₁.found hstatus₁) hev₁
  refine ⟨p₂, ch₂, fun fd => ?_, ?_⟩
  · by_cases hfd : fd = ch.fd
    · unfold Registered at hreg₂
      rw [hstatus₂] at hreg₂
      rw [hfd, ← hfd₁, ← hfd₂]
      exact hreg₂.2
    · have hothers := h.others fd fun c hc he => hfd (by rw [hattempt] at hc; cases hc; exact he.symm)
      rw [hsame₂.channels fd (hfd₁ ▸ hfd), hsame₂.epollSet fd (hfd₁ ▸ hfd), hsame₁.channels fd hfd,
        hsame₁.epollSet fd hfd]
      exact hothers
  · have hdeclare : ch.declare .disableAllEvent = { ch with events := kNoneEvent } := rfl
    rw [hdeclare] at hc
    have hfirst := onPoller_ok (s := { s with connector := c }) hc hupdate
    have hsecond := onPoller_ok (s := { s with
      poller := p₁
      connector := { c with channel := some (name, ch₁) } }) rfl hremove
    simp only [removal, List.cons_append, List.nil_append, List.foldlM_cons, perform, hfirst, ok_bind]
    exact congrArg (· >>= _) hsecond

/-- The log entry that ends an attempt: its socket was closed or handed over. -/
def Entry.Ends (name : Nat) (e : Entry) : Prop := e = .closed name false ∨ e = .handed name false true

theorem Entry.Ends.counts {e : Entry} (h : e.Ends name) (name' : Nat) :
    (if e.closes name' then 1 else 0) + (if e.hands name' then 1 else 0) = if name = name' then 1 else 0 := by
  rcases h with rfl | rfl <;> simp [Entry.closes, Entry.hands]

/-- The state in which an attempt has ended. -/
def endState (s : State) (c : Connector) (p : EpollPoller Nat) (name timers : Nat) (fds : Int → Option Nat)
    (e : Entry) : State :=
  { s with
    connector := c
    poller := p
    loop := s.loop.queueInLoop true (.resetChannel name)
    timers
    fds
    log := s.log ++ [e] }

/-- No channel of the connector is left in the batch. -/
def Dispatched (s : State) : Prop :=
  ∀ active, s.loop.phase = .dispatching active → active.filter Active.isChannel = []

theorem Inv.ended (c : Connector) {state : States} {ch' : Channel} (hcstate : c.state = state)
    (hne : state ≠ .kConnecting) (hc : c.channel = some (name, ch')) (hcallback : c.newConnectionCallback = true)
    (h : Inv s) (hattempt : ConnectorLoop.attempt s = some (name, ch)) {p : EpollPoller Nat}
    (hp : ∀ fd, p.channels fd = none ∧ p.epollSet fd = none) (hphase : Dispatched s) {e : Entry} (he : e.Ends name)
    (timers : Nat) (fds : Int → Option Nat) : Inv (endState s c p name timers fds e) := by
  have hstate : c.state ≠ .kConnecting := hcstate ▸ hne
  have hconnecting := (attempt_eq_some hattempt).1
  refine ⟨fun name' ch'' hnew => ?_, fun hnew => absurd hnew hstate, fun fd _ => hp fd, ?_, h.inflight, ?_, ?_,
    hcallback, fun name' => ?_, ?_⟩
  · exact absurd (attempt_eq_some hnew).1 hstate
  · have hresets := h.resets
    unfold ConnectorLoop.resets at hresets ⊢
    rw [if_pos hconnecting] at hresets
    change (s.loop.queueInLoop true (.resetChannel name)).queued.filterMap resetOf =
      if c.state = .kConnecting then [] else (c.channel.map Prod.fst).toList
    rw [if_neg hstate, hc, EventLoop.queued_queueInLoop, List.filterMap_append, hresets]
    rfl
  · intro active hactive name' revents hmem
    have hfilter := hphase active (EventLoop.queueInLoop_phase.symm.trans hactive)
    have hmem' : Active.channel name' revents ∈ active.filter Active.isChannel := List.mem_filter.mpr ⟨hmem, rfl⟩
    rw [hfilter] at hmem'
    cases hmem'
  · intro active hactive
    rw [hphase active (EventLoop.queueInLoop_phase.symm.trans hactive)]
    exact Nat.zero_le _
  · have haccount := h.account name'
    have hcounts := he.counts name'
    have hbefore : attempts s name' = if name = name' then 1 else 0 := by simp [attempts, hattempt]
    have hafter : attempts (endState s c p name timers fds e) name' = 0 := by
      unfold attempts
      rw [attempt_idle (s := endState s c p name timers fds e) hstate]
      rfl
    unfold uses at haccount ⊢
    rw [hbefore] at haccount
    rw [hafter, closes_append s e name' rfl, hands_append s e name' rfl]
    refine Eq.trans ?_ haccount
    omega
  · intro e' he'
    rcases List.mem_append.mp he' with he' | he'
    · exact h.clean e' he'
    · cases List.mem_singleton.mp he'
      rcases he with rfl | rfl
      · rfl
      · exact ⟨rfl, rfl⟩

theorem starts_queue (h : resetOf f ≠ none) (s : State) {t : State} (hloop : t.loop = s.loop.queueInLoop true f)
    (hin : t.inflight = s.inflight) : starts t = starts s := by
  have hne : f ≠ .startInLoop := by
    rintro rfl
    exact h rfl
  unfold starts pending
  rw [hloop, hin, EventLoop.queued_queueInLoop]
  simp [List.count_append, hne]

theorem close_ok {fd : Int} (hfd : s.fds fd = some name) (hreg : registered s fd = false) : close s fd = { s with
    fds := Function.update s.fds fd none
    log := s.log ++ [.closed name false] } := by
  simp only [close, hfd, hreg]

theorem handOver_ok {fd : Int} (hfd : s.fds fd = some name) (hreg : registered s fd = false) : handOver s fd = { s with
    log := s.log ++ [.handed name false s.connector.enableConnect] } := by
  simp only [handOver, hfd, hreg]

theorem perform_close (h : Inv s) (hattempt : attempt s = some (name, ch)) {c : Connector}
    (hc : c.channel = some (name, ch.declare .disableAllEvent)) (rest : List Effect) :
    ∃ p ch', (∀ fd, p.channels fd = none ∧ p.epollSet fd = none) ∧
      (removal name ++ .close ch.fd :: rest).foldlM perform { s with connector := c } =
        rest.foldlM perform (endState s { c with channel := some (name, ch') } p name s.timers
          (Function.update s.fds ch.fd none) (.closed name false)) := by
  obtain ⟨_, _, hfds⟩ := h.attempt name ch hattempt
  obtain ⟨p, ch', hp, hperform⟩ := perform_removal h hattempt hc (.close ch.fd :: rest)
  have hclose := close_ok (s := { s with
    connector := { c with channel := some (name, ch') }
    poller := p
    loop := s.loop.queueInLoop true (.resetChannel name) }) hfds (by simp [registered, hp])
  refine ⟨p, ch', hp, hperform.trans ?_⟩
  simp only [List.foldlM_cons, perform, hclose, ok_bind]
  rfl

theorem leaves_end {c : Connector} {p : EpollPoller Nat} (timers : Nat) {fds : Int → Option Nat} {e : Entry}
    (hon : c.enableConnect = s.connector.enableConnect) :
    Leaves s (endState s c p name (s.timers + timers) fds e) c.state timers :=
  ⟨rfl, hon, rfl, starts_queue (by simp [resetOf]) s rfl rfl⟩

/-- An attempt that fails, or is stopped: its socket is closed, and another attempt is scheduled if the
connector is enabled. -/
theorem finish_retry (h : Inv s) (hattempt : attempt s = some (name, ch)) (hphase : Dispatched s) {c : Connector}
    (hon : c.enableConnect = s.connector.enableConnect) (hcallback : c.newConnectionCallback = true) :
    ∃ t, finish s ((c.removed name ch).retry (removal name) ch.fd) = .ok t ∧ Inv t ∧
      Leaves s t .kDisconnected (if s.connector.enableConnect then 1 else 0) := by
  cases henable : s.connector.enableConnect with
  | true =>
      let c' : Connector := { c.removed name ch with
        state := .kDisconnected
        retryDelayMs := min (c.retryDelayMs * 2) kMaxRetryDelayMs }
      obtain ⟨p, ch', hp, hperform⟩ := perform_close h hattempt (c := c') rfl [.runAfter c.retryDelayMs]
      let c'' : Connector := { c' with channel := some (name, ch') }
      let t := endState s c'' p name (s.timers + 1)
        (Function.update s.fds ch.fd none) (.closed name false)
      have hinv : Inv t := Inv.ended c'' rfl nofun rfl hcallback h hattempt hp hphase (Or.inl rfl) (s.timers + 1) _
      refine ⟨t, ?_, hinv, leaves_end 1 hon⟩
      rw [retry_on (c := c.removed name ch) (hon.trans henable)]
      exact hperform
  | false =>
      let c' : Connector := { c.removed name ch with state := .kDisconnected }
      obtain ⟨p, ch', hp, hperform⟩ := perform_close h hattempt (c := c') rfl []
      let c'' : Connector := { c' with channel := some (name, ch') }
      let t := endState s c'' p name s.timers
        (Function.update s.fds ch.fd none) (.closed name false)
      have hinv : Inv t := Inv.ended c'' rfl nofun rfl hcallback h hattempt hp hphase (Or.inl rfl) s.timers _
      refine ⟨t, ?_, hinv, leaves_end 0 hon⟩
      rw [retry_off (c := c.removed name ch) (hon.trans henable)]
      exact hperform

theorem handleWrite_ok (h : Inv s) (hattempt : attempt s = some (name, ch)) (hphase : Dispatched s) (err : Nat)
    (isSelfConnect : Bool) :
    ∃ t state timers, (do
        let o ← s.connector.handleWrite err isSelfConnect
        finish s o) = .ok t ∧ Inv t ∧ Leaves s t state timers ∧
      (state = .kConnected ∧ timers = 0 ∨
        state = .kDisconnected ∧ timers = if s.connector.enableConnect then 1 else 0) := by
  obtain ⟨hstate, hch⟩ := attempt_eq_some hattempt
  obtain ⟨_, _, hfds⟩ := h.attempt name ch hattempt
  rw [handleWrite_connecting hstate hch]
  by_cases hfail : err ≠ 0 ∨ isSelfConnect = true
  · obtain ⟨t, ht, hinv, hleaves⟩ := finish_retry h hattempt hphase (c := s.connector) rfl h.callback
    rw [if_pos hfail]
    exact ⟨t, _, _, ht, hinv, hleaves, Or.inr ⟨rfl, rfl⟩⟩
  · rw [if_neg hfail]
    cases henable : s.connector.enableConnect with
    | true =>
        let c' : Connector := { s.connector.removed name ch with state := .kConnected }
        obtain ⟨p, ch', hp, hperform⟩ := perform_removal h hattempt (c := c') rfl [.newConnectionCallback ch.fd]
        let c'' : Connector := { c' with channel := some (name, ch') }
        let t := endState s c'' p name s.timers s.fds (.handed name false true)
        have hinv : Inv t := Inv.ended c'' rfl nofun rfl h.callback h hattempt hp hphase (Or.inr rfl) s.timers _
        refine ⟨t, .kConnected, 0, ?_, hinv, leaves_end 0 rfl, Or.inl ⟨rfl, rfl⟩⟩
        have hhand := handOver_ok (s := { s with
          connector := c''
          poller := p
          loop := s.loop.queueInLoop true (.resetChannel name) }) hfds (by simp [registered, hp])
        have hon : c''.enableConnect = true := henable
        simp only [if_true, h.callback, ok_bind]
        refine hperform.trans ?_
        simp only [List.foldlM_cons, perform]
        rw [hhand, hon]
        rfl
    | false =>
        let c' : Connector := { s.connector.removed name ch with state := .kConnected }
        obtain ⟨p, ch', hp, hperform⟩ := perform_close h hattempt (c := c') rfl []
        let c'' : Connector := { c' with channel := some (name, ch') }
        let t := endState s c'' p name s.timers
          (Function.update s.fds ch.fd none) (.closed name false)
        have hinv : Inv t := Inv.ended c'' rfl nofun rfl h.callback h hattempt hp hphase (Or.inl rfl) s.timers _
        exact ⟨t, .kConnected, 0, hperform, hinv, leaves_end 0 rfl, Or.inl ⟨rfl, rfl⟩⟩

theorem stopInLoop_ok (h : Inv s) (hphase : Dispatched s) :
    ∃ t state timers, (do
        let o ← s.connector.stopInLoop true
        finish s o) = .ok t ∧ Inv t ∧ Leaves s t state timers ∧
      (s.connector.state ≠ .kConnecting ∧ state = s.connector.state ∧ timers = 0 ∨
        s.connector.state = .kConnecting ∧ state = .kDisconnected ∧
          timers = if s.connector.enableConnect then 1 else 0) := by
  by_cases hstate : s.connector.state = .kConnecting
  · obtain ⟨⟨name, ch⟩, hch⟩ := Option.ne_none_iff_exists'.mp (h.connecting hstate)
    have hattempt : attempt s = some (name, ch) := (attempt_connecting hstate).trans hch
    obtain ⟨t, ht, hinv, hleaves⟩ := finish_retry h hattempt hphase
      (c := { s.connector with state := .kDisconnected }) rfl h.callback
    rw [stopInLoop_connecting hstate hch]
    exact ⟨t, _, _, ht, hinv, hleaves, Or.inr ⟨hstate, rfl, rfl⟩⟩
  · rw [stopInLoop_keep hstate]
    exact ⟨s, _, 0, rfl, h, ⟨rfl, rfl, rfl, rfl⟩, Or.inl ⟨hstate, rfl, rfl⟩⟩

theorem Inv.release {functors : List Functor} {queuedFor : Nat}
    (hphase : s.loop.phase = .calling (.resetChannel queuedFor :: functors)) (h : Inv s) :
    (s.connector.state ≠ .kConnecting ∧ s.connector.channel.map Prod.fst = some queuedFor) ∧
      Inv { s with connector := s.connector.resetChannel, loop := s.loop.callRest functors } := by
  have hresets := h.resets
  unfold ConnectorLoop.resets at hresets
  rw [EventLoop.queued_calling hphase] at hresets
  by_cases hstate : s.connector.state = .kConnecting
  · rw [if_pos hstate] at hresets
    cases hresets
  · rw [if_neg hstate] at hresets
    cases hch : s.connector.channel with
    | none =>
        rw [hch] at hresets
        cases hresets
    | some c =>
        rw [hch] at hresets
        have hhead : queuedFor = c.1 := (List.cons.inj hresets).1
        have hrest : (functors ++ s.loop.pendingFunctors).filterMap resetOf = [] := (List.cons.inj hresets).2
        have hidle := attempt_idle hstate
        refine ⟨⟨hstate, congrArg some hhead.symm⟩, ?_⟩
        refine ⟨fun name ch hnew => ?_, fun hnew => absurd hnew hstate, fun fd _ => h.idle hstate fd, ?_, h.inflight,
          nofun, nofun, h.callback, fun name => ?_, h.clean⟩
        · exact absurd (attempt_eq_some hnew).1 hstate
        · change (functors ++ s.loop.pendingFunctors).filterMap resetOf =
            if s.connector.state = .kConnecting then [] else []
          rw [hrest, if_neg hstate]
        · have haccount := h.account name
          unfold uses attempts at haccount ⊢
          rw [hidle] at haccount
          rw [attempt_idle (s := { s with connector := s.connector.resetChannel, loop := s.loop.callRest functors })
            hstate]
          exact haccount

/-! ### `HandleEvent` -/

theorem foldlM_handleCallback (s : State) (err : Nat) (isSelfConnect : Bool) (revents : Events) :
    (handleEvent revents).foldlM (fun s cb => do
        let o ← s.connector.handleCallback err isSelfConnect cb
        finish s o) s =
      if isWritable revents then do
        let o ← s.connector.handleWrite err isSelfConnect
        finish s o
      else .ok s := by
  have hkeep : finish s { connector := s.connector } = .ok s := rfl
  have hlast (x : Except Abort State) : x >>= Except.ok = x := bind_pure x
  unfold OulaServer.handleEvent
  cases isHangUp revents <;> cases isReadable revents <;> cases isWritable revents <;>
    simp [Connector.handleCallback, hkeep, hlast, pure, Except.pure]

theorem handleEvent_ok (h : Inv s) (err : Nat) (isSelfConnect : Bool) (hen : Enabled s (.handleEvent err isSelfConnect)) :
    ∃ t, step s (.handleEvent err isSelfConnect) = .ok t ∧ Inv t ∧
      (t.connector = s.connector ∧ t.timers = s.timers ∧ starts t = starts s ∨
        s.connector.state = .kConnecting ∧ ∃ state timers, Leaves s t state timers ∧
          (state = .kConnected ∧ timers = 0 ∨
            state = .kDisconnected ∧ timers = if s.connector.enableConnect then 1 else 0)) := by
  obtain ⟨a, ha⟩ := Option.ne_none_iff_exists'.mp hen
  obtain ⟨active, hphase⟩ := Phase.nextChannel_eq_some.mp ha
  have hqueued : (s.loop.dispatch active).queued = s.loop.queued := (EventLoop.queued_dispatching hphase).symm
  have hstarts : starts { s with loop := s.loop.dispatch active } = starts s := by
    unfold starts pending
    rw [hqueued]
  have hinv : Inv { s with loop := s.loop.dispatch active } := by
    refine h.loop (congrArg _ hqueued) h.inflight fun active' hactive => ?_
    cases hactive
    refine ⟨le_trans ?_ (h.single _ hphase), fun name revents hmem => ?_⟩
    · exact List.Sublist.length_le (List.Sublist.filter _ (List.sublist_cons_self a active))
    · exact h.active _ hphase name revents (List.mem_cons_of_mem _ hmem)
  cases a with
  | timerfd =>
      refine ⟨_, ?_, hinv, Or.inl ⟨rfl, rfl, hstarts⟩⟩
      simp only [step, hphase]
  | other =>
      refine ⟨_, ?_, hinv, Or.inl ⟨rfl, rfl, hstarts⟩⟩
      simp only [step, hphase]
  | channel name revents =>
      have hname := h.active _ hphase name revents (List.mem_cons_self ..)
      obtain ⟨⟨name', ch⟩, hattempt, rfl⟩ := Option.map_eq_some_iff.mp hname
      obtain ⟨hstate, hch⟩ := attempt_eq_some hattempt
      have hcheck : s.connector.channel.map Prod.fst = some name' := by
        rw [hch]
        rfl
      have hdispatched : Dispatched { s with loop := s.loop.dispatch active } := by
        intro active' hactive
        cases hactive
        have hsingle := h.single _ hphase
        rw [List.filter_cons_of_pos rfl] at hsingle
        exact List.eq_nil_of_length_eq_zero (Nat.le_zero.mp (Nat.le_of_succ_le_succ hsingle))
      have hstep : step s (.handleEvent err isSelfConnect) = if isWritable revents then do
          let o ← s.connector.handleWrite err isSelfConnect
          finish { s with loop := s.loop.dispatch active } o
        else .ok { s with loop := s.loop.dispatch active } := by
        simp only [step, hphase, check_pos hcheck, ok_bind]
        exact foldlM_handleCallback { s with loop := s.loop.dispatch active } err isSelfConnect revents
      rw [hstep]
      cases isWritable revents with
      | false => exact ⟨_, rfl, hinv, Or.inl ⟨rfl, rfl, hstarts⟩⟩
      | true =>
          obtain ⟨t, state, timers, ht, htinv, hleaves, hcases⟩ :=
            handleWrite_ok hinv (hattempt : attempt { s with loop := s.loop.dispatch active } = _) hdispatched err
              isSelfConnect
          refine ⟨t, ht, htinv, Or.inr ⟨hstate, state, timers, ?_, hcases⟩⟩
          exact ⟨hleaves.state, hleaves.enableConnect, hleaves.timers, hleaves.starts.trans hstarts⟩

end ConnectorLoop

end OulaServer
