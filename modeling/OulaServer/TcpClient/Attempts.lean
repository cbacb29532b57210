import OulaServer.TcpClient.Lifetime

/-!
# The one attempt of a client's connector

`Solo` is the invariant of a client that is not destroyed and whose connector was started once. An attempt, a retry
timer and a connection exclude each other, and the connector's channel is known to the poller exactly while the
attempt is in progress. After that the channel waits for the one `resetChannel` that is queued for it, and no
other functor of the connector is on its way. What a batch still holds of the connector's channel belongs to the
attempt in progress.

The functions of the connections leave all of this (`Aside`), so that only those of the connector have to be looked
at: `Solo.started` and `Solo.ended`.
-/

namespace OulaServer

namespace TcpClient

open TcpConnection EpollPoller World

/-! ### What concerns the connector -/

def Functor.connector? : Functor → Option Connector.Functor
  | conn _ _ => none
  | connector f => some f

def Active.isConnector : Active → Bool
  | channel (.connector _) _ => true
  | channel (.conn _) _ | timerfd | other => false

/-- A callback that calls `handleWrite` of the connector. -/
def isHandleWrite : Owner × EventCallback → Bool
  | (.connector _, .write) => true
  | _ => false

namespace World

/-- The functors of the connector that are queued. -/
def connectors (w : World) : List Connector.Functor := w.loop.queued.filterMap Functor.connector?

/-- What is left of the batch. -/
def batch (w : World) : List Active :=
  match w.loop.phase with
  | .dispatching active => active
  | .beforeLoop | .polling | .calling _ => []

/-- How often the connector's channel is still to be called. -/
def seen (w : World) : Nat := w.batch.countP Active.isConnector + w.callbacks.countP isHandleWrite

/-- The channel of the attempt in progress. -/
def attempt (w : World) (name : Nat) : Option Channel :=
  if w.connector.state = .kConnecting then w.channel (.connector name) else none

end World

structure Solo (w : World) : Prop where
  destroyed : w.destroyed = false
  client : ∀ id, (w.conn id).closeCallback = .client
  fresh : w.connector.enableConnect = false →
    w.connector.state = .kDisconnected ∧ w.connector.channel = none ∧ .startInLoop ∉ w.timers
  once : w.timers.count .startInLoop ≤ 1
  retrying : .startInLoop ∈ w.timers → w.connector.state = .kDisconnected
  connecting : w.connector.state = .kConnecting → w.connector.channel ≠ none
  resets : w.connectors = if w.connector.state = .kConnecting then []
    else (w.connector.channel.map fun c => .resetChannel c.1).toList
  inflight : w.inflight.filterMap Functor.connector? = []
  single : w.seen ≤ 1
  event : 0 < w.seen → w.connector.state = .kConnecting
  idle : (∀ active, w.loop.phase ≠ .dispatching active) → w.callbacks = []
  tracks : ∀ name, w.poller.Tracks (.connector name) (w.attempt name)

/-- A step that leaves the connector alone. -/
structure Aside (w w' : World) : Prop where
  connector : w'.connector = w.connector
  destroyed : w'.destroyed = w.destroyed
  client : (∀ id, (w.conn id).closeCallback = .client) → ∀ id, (w'.conn id).closeCallback = .client
  timers : w'.timers.count .startInLoop = w.timers.count .startInLoop
  connectors : w'.connectors = w.connectors
  inflight : w'.inflight.filterMap Functor.connector? = w.inflight.filterMap Functor.connector?
  seen : w'.seen ≤ w.seen
  idle : (∀ active, w'.loop.phase ≠ .dispatching active) →
    ((∀ active, w.loop.phase ≠ .dispatching active) → w.callbacks = []) → w'.callbacks = []
  tracks : ∀ name o, w.poller.Tracks (.connector name) o → w'.poller.Tracks (.connector name) o

theorem Aside.refl (w : World) : Aside w w :=
  ⟨rfl, rfl, fun h => h, rfl, rfl, rfl, Nat.le_refl _, fun hphase hidle => hidle hphase, fun _ _ h => h⟩

variable {w w' w'' : World} {id : Nat}

theorem Aside.trans (h : Aside w w') (h' : Aside w' w'') : Aside w w'' where
  connector := h'.connector.trans h.connector
  destroyed := h'.destroyed.trans h.destroyed
  client hc := h'.client (h.client hc)
  timers := h'.timers.trans h.timers
  connectors := h'.connectors.trans h.connectors
  inflight := h'.inflight.trans h.inflight
  seen := h'.seen.trans h.seen
  idle hphase hidle := h'.idle hphase fun hmid => h.idle hmid hidle
  tracks name o ho := h'.tracks name o (h.tracks name o ho)

theorem attempt_eq (hconnector : w'.connector = w.connector) (name : Nat) : w'.attempt name = w.attempt name := by
  unfold World.attempt World.channel
  rw [hconnector]

theorem connectors_eq (hqueued : w'.loop.queued = w.loop.queued) : w'.connectors = w.connectors :=
  congrArg (List.filterMap Functor.connector?) hqueued

theorem Solo.aside (h : Solo w) (ha : Aside w w') : Solo w' := by
  have hmem : .startInLoop ∈ w'.timers ↔ .startInLoop ∈ w.timers := by
    rw [← List.count_pos_iff, ← List.count_pos_iff, ha.timers]
  refine ⟨ha.destroyed.trans h.destroyed, ha.client h.client, ?_, ?_, ?_, ?_, ?_, ha.inflight.trans h.inflight,
    ha.seen.trans h.single, ?_, fun hphase => ha.idle hphase h.idle, fun name => ?_⟩
  · rw [ha.connector, hmem]
    exact h.fresh
  · rw [ha.timers]
    exact h.once
  · rw [ha.connector, hmem]
    exact h.retrying
  · rw [ha.connector]
    exact h.connecting
  · rw [ha.connector, ha.connectors]
    exact h.resets
  · rw [ha.connector]
    exact fun hpos => h.event (Nat.lt_of_lt_of_le hpos ha.seen)
  · rw [attempt_eq ha.connector]
    exact ha.tracks name _ (h.tracks name)

/-! ### The connections leave the connector alone -/

theorem seen_le (hphase : w'.loop.phase = w.loop.phase) (hcallbacks : w'.callbacks = w.callbacks) :
    w'.seen ≤ w.seen := by
  unfold World.seen World.batch
  rw [hphase, hcallbacks]

theorem idle_of_phase (hphase : w'.loop.phase = w.loop.phase) (hcallbacks : w'.callbacks = w.callbacks)
    (hnot : ∀ active, w'.loop.phase ≠ .dispatching active)
    (hidle : (∀ active, w.loop.phase ≠ .dispatching active) → w.callbacks = []) : w'.callbacks = [] := by
  rw [hphase] at hnot
  exact hcallbacks.trans (hidle hnot)

theorem filterMap_conn (id : Nat) (fs : List ConnFunctor) :
    (fs.map (Functor.conn id)).filterMap Functor.connector? = [] := by
  rw [List.filterMap_eq_nil_iff]
  intro f hf
  obtain ⟨_, _, rfl⟩ := List.mem_map.mp hf
  rfl

theorem setTcp_aside {tcp : TcpConnection} : Aside w (w.setTcp id tcp) := by
  refine { Aside.refl w with client := fun hc id' => ?_ }
  by_cases hid : id' = id
  · subst hid
    rw [setTcp_conn_self]
    exact hc id'
  · exact (congrArg Connection.closeCallback (Function.update_of_ne hid _ _)).trans (hc id')

theorem queue_aside {b : Bool} {f : ConnFunctor} : Aside w (w.queueInLoop b (.conn id f)) := by
  refine { Aside.refl w with
    connectors := ?_
    seen := seen_le EventLoop.queueInLoop_phase rfl
    idle := idle_of_phase EventLoop.queueInLoop_phase rfl }
  unfold World.connectors
  simp only [queueInLoop, EventLoop.queued_queueInLoop, List.filterMap_append]
  exact List.append_nil _

theorem inflight_aside {inflight : List Functor}
    (h : inflight.filterMap Functor.connector? = w.inflight.filterMap Functor.connector?) :
    Aside w { w with inflight } := { Aside.refl w with inflight := h }

theorem Acts.aside {before channel : Channel} {effects : List Effect} {loop : EventLoop Active Functor}
    {poller : EpollPoller Owner} {timers : List Timer} {tcp : TcpConnection} {rest : List Rest}
    (h : Acts w id before effects channel loop poller timers) :
    Aside w (w.acted id tcp loop poller timers rest) := by
  refine { Aside.refl w with
    client := fun hc id' => ?_
    timers := ?_
    connectors := ?_
    seen := seen_le h.phase rfl
    idle := idle_of_phase h.phase rfl
    tracks := fun name o ho => h.others (.connector name) (by nofun) o ho }
  · by_cases hid : id' = id
    · subst hid
      rw [acted_conn_self]
      exact hc id'
    · rw [acted_conn_of_ne hid]
      exact hc id'
  · change timers.count .startInLoop = _
    have hnone : (timersOf id effects).count .startInLoop = 0 :=
      List.count_eq_zero.mpr fun hmem => nomatch mem_timersOf hmem
    rw [h.timers, List.count_append, hnone, Nat.add_zero]
  · change loop.queued.filterMap Functor.connector? = _
    rw [h.queued, List.filterMap_append, filterMap_conn, List.append_nil]
    rfl

theorem finish_aside {o : Outcome} (hok : w.finish id o = .ok w') : Aside w w' := by
  obtain ⟨channel, loop, poller, timers, rfl, hacts⟩ := finish_ok hok
  exact hacts.aside

theorem runConn_aside {mem : Memory} {wr : WriteResult} {f : ConnFunctor} (hok : w.runConn id mem wr f = .ok w') :
    Aside w w' := by
  obtain ⟨o, _, hok⟩ := bind_eq_ok.mp hok
  exact finish_aside hok

theorem call_aside {k : TcpConnection.Call} {mem : Memory} {wr : WriteResult} (hok : w.call id k mem wr = .ok w') :
    Aside w w' := by
  unfold World.call at hok
  split at hok
  · exact setTcp_aside.trans (runConn_aside hok)
  · cases hok
    exact setTcp_aside.trans queue_aside
  · cases hok
    exact setTcp_aside

theorem newConnection_aside {sockfd : Int} (hok : w.newConnection sockfd = .ok w') : Aside w w' := by
  obtain ⟨_, channel, loop, poller, timers, rfl, hacts⟩ := newConnection_ok hok
  have hmade : Aside w (w.made sockfd) := by
    refine { Aside.refl w with client := fun hc id' => ?_ }
    by_cases hid : id' = w.nextConnId + 1
    · subst hid
      exact congrArg Connection.closeCallback (Function.update_self (w.nextConnId + 1) _ w.conn)
    · exact (congrArg Connection.closeCallback (Function.update_of_ne hid _ _)).trans (hc id')
  exact hmade.trans hacts.aside

/-! ### An attempt that ends -/

variable {name : Nat} {ch ch' : Channel} {o : Connector.Outcome}

theorem removal_ok (hch : w.connector.channel = some (name, ch))
    (hok : (Connector.removal name).foldlM performConnector w = .ok w') :
    ∃ poller ch', w' = { w with
        connector := { w.connector with channel := some (name, ch') }
        poller
        loop := w.loop.queueInLoop true (.connector (.resetChannel name)) } ∧
      (w.poller.Tracks (.connector name) (some ch) → poller.Unregistered (.connector name)) ∧
      ∀ owner, owner ≠ .connector name → ∀ o, w.poller.Tracks owner o → poller.Tracks owner o := by
  rw [Connector.removal, List.foldlM_cons] at hok
  obtain ⟨w₁, hupdate, hok⟩ := bind_eq_ok.mp hok
  obtain ⟨name₁, ch₁, p₁, ch₂, hch₁, hup, hw₁⟩ := onPoller_ok hupdate
  cases hch.symm.trans hch₁
  rw [List.foldlM_cons] at hok
  obtain ⟨w₂, hremove, hok⟩ := bind_eq_ok.mp hok
  have hremove : w₁.onPoller EpollPoller.removeChannel = .ok w₂ := hremove
  obtain ⟨name₂, ch₃, p₂, ch₄, hch₂, hrem, rfl⟩ := onPoller_ok hremove
  subst hw₁
  cases hch₂
  cases hok
  have hupdated := updateChannel_updated hup
  have hremoved := removeChannel_removed hrem
  exact ⟨p₂, ch₄, rfl, fun htracks => (htracks.update rfl hupdated).remove hremoved,
    fun owner hne o ho => (ho.update_of_ne hne hupdated).of_removed hremoved⟩

theorem Solo.not_retrying (h : Solo w) (hstate : w.connector.state ≠ .kDisconnected) : .startInLoop ∉ w.timers :=
  fun hmem => hstate (h.retrying hmem)

theorem Solo.ended (h : Solo w) (hseen : w.seen = 0) (hstate : w.connector.state = .kConnecting)
    (hch : w.connector.channel = some (name, ch)) {c : Connector} (hon : c.enableConnect = w.connector.enableConnect)
    (hc : c.channel = some (name, ch')) (hcstate : c.state ≠ .kConnecting) {poller : EpollPoller Owner}
    (hun : w.poller.Tracks (.connector name) (some ch) → poller.Unregistered (.connector name))
    (hothers : ∀ owner, owner ≠ .connector name → ∀ o, w.poller.Tracks owner o → poller.Tracks owner o)
    {timers : List Timer} (htimers : timers = w.timers ∨ c.state = .kDisconnected ∧ timers = w.timers ++ [.startInLoop]) :
    Solo { w with
      connector := c
      poller
      loop := w.loop.queueInLoop true (.connector (.resetChannel name))
      timers } := by
  have hno : .startInLoop ∉ w.timers := h.not_retrying (by rw [hstate]; nofun)
  have hzero : w.timers.count .startInLoop = 0 := List.count_eq_zero.mpr hno
  let w' : World := { w with
    connector := c
    poller
    loop := w.loop.queueInLoop true (.connector (.resetChannel name))
    timers }
  have hseen' : w'.seen ≤ w.seen := seen_le EventLoop.queueInLoop_phase rfl
  rw [hseen] at hseen'
  change Solo w'
  refine ⟨h.destroyed, h.client, fun hoff => ?_, ?_, fun hmem => ?_, fun hconnecting => absurd hconnecting hcstate, ?_,
    h.inflight, hseen'.trans (Nat.zero_le _), fun hpos => ?_, fun hphase => ?_, fun n => ?_⟩
  · have hidle := (h.fresh (hon.symm.trans hoff)).1
    rw [hstate] at hidle
    cases hidle
  · change timers.count .startInLoop ≤ 1
    rcases htimers with rfl | ⟨_, rfl⟩
    · exact h.once
    · rw [List.count_append, hzero, List.count_singleton_self]
  · change .startInLoop ∈ timers at hmem
    rcases htimers with rfl | ⟨hdown, _⟩
    · exact absurd hmem hno
    · exact hdown
  · have hbefore := h.resets
    rw [if_pos hstate] at hbefore
    change (w.loop.queueInLoop true (.connector (.resetChannel name))).queued.filterMap Functor.connector? =
      if c.state = .kConnecting then [] else (c.channel.map fun c => .resetChannel c.1).toList
    rw [if_neg hcstate, hc, EventLoop.queued_queueInLoop, List.filterMap_append]
    exact congrArg (· ++ [Connector.Functor.resetChannel name]) hbefore
  · exact absurd (Nat.lt_of_lt_of_le hpos hseen') (lt_irrefl 0)
  · exact idle_of_phase (w := w) EventLoop.queueInLoop_phase rfl hphase h.idle
  · have hnone : w'.attempt n = none := if_neg hcstate
    rw [hnone]
    have htracks := h.tracks n
    unfold World.attempt at htracks
    rw [if_pos hstate] at htracks
    unfold World.channel at htracks
    rw [hch] at htracks
    by_cases hn : n = name
    · subst hn
      exact (hun (by simpa using htracks)).tracks none
    · refine hothers _ (fun he => hn (Owner.connector.inj he)) none ?_
      simpa [Ne.symm hn] using htracks

theorem removed_tracks {owner : Owner} (htracks : w.poller.Tracks owner (some ch)) (op : ChannelOp) :
    w.poller.Tracks owner (some (ch.declare op)) := htracks.congr rfl rfl

theorem Solo.removal (h : Solo w) (hseen : w.seen = 0) (hstate : w.connector.state = .kConnecting)
    (hch : w.connector.channel = some (name, ch)) {c : Connector} (hon : c.enableConnect = w.connector.enableConnect)
    (hc : c.channel = some (name, ch.declare .disableAllEvent)) (hcstate : c.state ≠ .kConnecting)
    (hok : (Connector.removal name).foldlM performConnector { w with connector := c } = .ok w') :
    Solo w' ∧ w'.connector.state = c.state ∧
      (c.state = .kDisconnected → Solo { w' with timers := w'.timers ++ [.startInLoop] }) := by
  obtain ⟨poller, ch', rfl, hun, hothers⟩ := removal_ok (w := { w with connector := c }) hc hok
  let c' : Connector := { c with channel := some (name, ch') }
  have hun' : w.poller.Tracks (.connector name) (some ch) → poller.Unregistered (.connector name) :=
    fun htracks => hun (removed_tracks htracks _)
  exact ⟨Solo.ended (c := c') h hseen hstate hch hon rfl hcstate hun' hothers (Or.inl rfl), rfl,
    fun hdown => Solo.ended (c := c') h hseen hstate hch hon rfl hcstate hun' hothers (Or.inr ⟨hdown, rfl⟩)⟩

theorem Solo.handleWrite (h : Solo w) (hseen : w.seen = 0) (hstate : w.connector.state = .kConnecting) {err : Nat}
    {isSelfConnect : Bool} (ho : w.connector.handleWrite err isSelfConnect = .ok o)
    (hok : w.finishConnector o = .ok w') : Solo w' := by
  rcases Connector.handleWrite_ok ho with ⟨hdown, _⟩ | ⟨_, name, ch, hch, rfl | ⟨tail, rfl, htail⟩⟩
  · cases hstate.symm.trans hdown
  · unfold World.finishConnector at hok
    rw [Connector.retry_effects, List.foldlM_append] at hok
    obtain ⟨w₁, hremoval, hok⟩ := bind_eq_ok.mp hok
    let c := (w.connector.removed name ch).retry (Connector.removal name) ch.fd
    have hdown : c.connector.state = .kDisconnected := Connector.retry_state
    obtain ⟨hsolo, _, htimer⟩ := h.removal (c := c.connector) hseen hstate hch Connector.retry_enableConnect
      Connector.retry_channel (by rw [hdown]; nofun) hremoval
    split_ifs at hok
    · cases hok
      exact htimer hdown
    · cases hok
      exact hsolo
  · obtain ⟨w₁, hremoval, hcall⟩ := bind_eq_ok.mp (List.foldlM_append.symm.trans hok)
    obtain ⟨hsolo, _, _⟩ := h.removal (c := { w.connector.removed name ch with state := .kConnected }) hseen hstate hch
      rfl rfl nofun hremoval
    rcases htail with ⟨rfl, _⟩ | rfl | rfl
    · obtain ⟨w₂, hnew, hlast⟩ := bind_eq_ok.mp (List.foldlM_cons.symm.trans hcall)
      cases hlast
      exact hsolo.aside (newConnection_aside hnew)
    · cases hcall
      exact hsolo
    · cases hcall
      exact hsolo

/-! ### An attempt that starts -/

theorem Solo.rest (h : Solo w) (hstate : w.connector.state ≠ .kConnecting) {c : Connector}
    (hc : c.state = .kDisconnected) (hon : c.enableConnect = true) (hchannel : c.channel = w.connector.channel) :
    Solo { w with connector := c } := by
  have hne : c.state ≠ .kConnecting := by
    rw [hc]
    nofun
  let w' : World := { w with connector := c }
  change Solo w'
  refine ⟨h.destroyed, h.client, fun hoff => ?_, h.once, fun _ => hc, fun hconnecting => absurd hconnecting hne, ?_,
    h.inflight, h.single, fun hpos => absurd (h.event hpos) hstate, h.idle, fun n => ?_⟩
  · cases hon.symm.trans hoff
  · have hresets := h.resets
    rw [if_neg hstate] at hresets
    change w.connectors = if c.state = .kConnecting then [] else (c.channel.map fun c => .resetChannel c.1).toList
    rw [if_neg hne, hchannel]
    exact hresets
  · have hbefore : w.attempt n = none := if_neg hstate
    have hafter : w'.attempt n = none := if_neg hne
    rw [hafter, ← hbefore]
    exact h.tracks n

theorem Solo.attempting (h : Solo w) (hstate : w.connector.state = .kDisconnected) (hno : .startInLoop ∉ w.timers)
    (hon : w.connector.enableConnect = true) (hch : w.connector.channel = none) {sockfd : Int}
    (hok : w.finishConnector {
      connector := w.connector.attempting w.sockets sockfd
      effects := [.socket w.sockets sockfd, .update] } = .ok w') : Solo w' := by
  have hidle : w.connector.state ≠ .kConnecting := by
    rw [hstate]
    nofun
  let w₁ : World := { w with connector := w.connector.attempting w.sockets sockfd, sockets := w.sockets + 1 }
  have hupdate : w₁.onPoller EpollPoller.updateChannel = .ok w' := by
    obtain ⟨w₂, hsocket, hok⟩ := bind_eq_ok.mp hok
    cases hsocket
    obtain ⟨w₃, hupdate, hok⟩ := bind_eq_ok.mp hok
    cases hok
    exact hupdate
  obtain ⟨name, ch, p, ch', hch', hup, rfl⟩ := onPoller_ok hupdate
  cases hch'
  have hupdated := updateChannel_updated hup
  let w' : World := { w₁ with
    poller := p
    connector := { w₁.connector with channel := some (w.sockets, ch') } }
  change Solo w'
  refine ⟨h.destroyed, h.client, fun hoff => ?_, h.once, fun hmem => absurd hmem hno, fun _ => nofun, ?_, h.inflight,
    h.single, fun _ => rfl, h.idle, fun n => ?_⟩
  · cases hon.symm.trans hoff
  · have hresets := h.resets
    rw [if_neg hidle, hch] at hresets
    exact hresets
  · have hbefore : w.attempt n = none := if_neg hidle
    have htracks := h.tracks n
    rw [hbefore] at htracks
    by_cases hn : n = w.sockets
    · subst hn
      have hself : w'.attempt w.sockets = some ch' := by
        simp [w', w₁, World.attempt, World.channel, Connector.attempting]
      rw [hself]
      exact ((htracks.unregistered nofun).tracks _).update rfl hupdated
    · have hother : w'.attempt n = none := by
        simp [w', w₁, World.attempt, World.channel, Ne.symm hn]
      rw [hother]
      exact htracks.update_of_ne (fun he => hn (Owner.connector.inj he)) hupdated

theorem Solo.startInLoop (h : Solo w) (hno : .startInLoop ∉ w.timers) {a : Connector.Connect}
    (hok : w.startInLoop a = .ok w') : Solo w' := by
  obtain ⟨o, ho, hok⟩ := bind_eq_ok.mp hok
  obtain ⟨hstate, hstarted⟩ := Connector.startInLoop_ok ho
  have hidle : w.connector.state ≠ .kConnecting := by
    rw [hstate]
    nofun
  cases hstarted with
  | disabled => exact finishConnector_self hok ▸ h
  | connecting hon _ hch => exact h.attempting hstate hno hon hch hok
  | fails =>
      cases hok
      exact h.aside { Aside.refl w with }
  | retry hon =>
      rw [Connector.retry_on hon] at hok
      cases hok
      have hrest := h.rest hidle (c := { w.connector with
        state := .kDisconnected
        retryDelayMs := min (w.connector.retryDelayMs * 2) Connector.kMaxRetryDelayMs }) rfl hon rfl
      have honce : (w.timers ++ [Timer.startInLoop]).count .startInLoop ≤ 1 := by
        rw [List.count_append, List.count_eq_zero.mpr hno, List.count_singleton_self]
      exact { hrest with
        fresh := fun hoff => by cases hon.symm.trans hoff
        once := honce
        retrying := fun _ => rfl }

/-- The connector when `restart` calls `startInLoop`. -/
def restarted (c : Connector) : Connector :=
  { c with state := .kDisconnected, retryDelayMs := Connector.kInitRetryDelayMs, enableConnect := true }

theorem restart_startInLoop (w : World) (a : Connector.Connect) :
    w.restart a = World.startInLoop { w with connector := restarted w.connector } a := by
  unfold World.restart
  rw [Connector.restart_eq]
  rfl

end TcpClient

end OulaServer
