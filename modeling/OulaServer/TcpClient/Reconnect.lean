import OulaServer.TcpClient.Attempts
import OulaServer.TcpClient.Errors

/-!
# A reconnecting client runs one attempt

A client whose `connect` is called once on its loop's thread, and which is not destroyed, has at most one attempt in
progress, pending retry timer or open connection, the assertions of the connector and of `removeConnection` hold, and
a `resetChannel` finds the channel it was queued for (`Single`), as long as no attempt gets under way before the
`resetChannel` of the last one ran (`StartsAfterReset`). One that does fails the assertion of `connecting`
(`single_iff`): a timer or a close in the same batch as the end of the last attempt is early enough for that
(`restarts_before_reset`).
-/

namespace OulaServer

namespace TcpClient

open Run TcpConnection EpollPoller World

variable {w w' : World} {id : Nat}

/-! ### The loop's thread moves on -/

theorem dispatch_aside {a : Active} {active : List Active} {callbacks : List (Owner × EventCallback)}
    (expired : List Timer) (hphase : w.loop.phase = .dispatching (a :: active))
    (hcallbacks : callbacks.countP isHandleWrite ≤
      w.callbacks.countP isHandleWrite + if a.isConnector = true then 1 else 0) :
    Aside w { w with loop := w.loop.dispatch active, callbacks, expired } := by
  refine { Aside.refl w with
    connectors := connectors_eq (EventLoop.queued_dispatching hphase).symm
    seen := ?_
    idle := fun hnot => absurd rfl (hnot active) }
  have hbatch : w.batch = a :: active := by
    unfold World.batch
    rw [hphase]
  change active.countP _ + callbacks.countP _ ≤ w.batch.countP _ + w.callbacks.countP _
  rw [hbatch, List.countP_cons]
  omega

theorem idle_aside {loop : EventLoop Active Functor} {called : List Functor}
    (hnot : ∀ active, loop.phase ≠ .dispatching active)
    (hconnectors : loop.queued.filterMap Functor.connector? = w.connectors)
    (hidle : w.callbacks = []) : Aside w { w with loop, called } := by
  refine { Aside.refl w with connectors := hconnectors, seen := ?_, idle := fun _ _ => hidle }
  have hbatch : World.batch { w with loop, called } = [] := by
    unfold World.batch
    cases hphase : loop.phase with
    | dispatching active => exact absurd hphase (hnot active)
    | _ => rfl
  unfold World.seen
  rw [hbatch]
  exact Nat.add_le_add_right (Nat.zero_le _) _

theorem handleEvent_writes (revents : Events) : (handleEvent revents).count .write ≤ 1 := by
  unfold handleEvent
  cases isHangUp revents <;> cases isReadable revents <;> cases isWritable revents <;> decide

theorem callbacks_count (owner : Owner) (revents : Events) :
    ((handleEvent revents).map (owner, ·)).countP isHandleWrite ≤
      if (Active.channel owner revents).isConnector = true then 1 else 0 := by
  rw [List.countP_map]
  cases owner with
  | conn id =>
      refine (List.countP_eq_zero.mpr fun cb _ => ?_).le
      cases cb <;> simp [isHandleWrite]
  | connector name =>
      refine le_trans (List.countP_mono_left fun cb _ hcb => ?_) (handleEvent_writes revents)
      cases cb with
      | write => rfl
      | close | read => cases hcb

theorem handleEvent_aside (hcallbacks : w.callbacks = []) (hphase : w.loop.phase.nextChannel ≠ none)
    (hok : step w .handleEvent = .ok w') : Aside w w' := by
  obtain ⟨a, ha⟩ := Option.ne_none_iff_exists'.mp hphase
  obtain ⟨active, hphase⟩ := Phase.nextChannel_eq_some.mp ha
  simp only [step, hphase] at hok
  cases a with
  | channel owner revents =>
      obtain ⟨_, _, hok⟩ := bind_eq_ok.mp hok
      cases hok
      refine dispatch_aside w.expired hphase ?_
      rw [hcallbacks]
      exact (callbacks_count owner revents).trans (Nat.zero_add _).ge
  | timerfd =>
      obtain ⟨_, _, hok⟩ := bind_eq_ok.mp hok
      cases hok
      exact dispatch_aside [] hphase (Nat.le_add_right _ _)
  | other =>
      cases hok
      exact dispatch_aside w.expired hphase (Nat.le_add_right _ _)

/-- The poller reports the connector's channel for the attempt in progress only. -/
theorem Solo.reported (h : Solo w) {name : Nat} {revents : Events}
    (hrep : Reported w (.channel (.connector name) revents)) :
    w.connector.state = .kConnecting ∧ w.connector.channel.map Prod.fst = some name := by
  obtain ⟨c, _, ⟨events, owner⟩, hevent, rfl, _⟩ := hrep
  obtain ⟨ch, hch, _, _⟩ := (h.tracks name).epollSet c.fd events hevent
  unfold World.attempt at hch
  split_ifs at hch with hstate
  · refine ⟨hstate, ?_⟩
    obtain ⟨⟨name', ch'⟩, hchannel, hch⟩ := Option.bind_eq_some_iff.mp hch
    rw [hchannel]
    split_ifs at hch with hname
    exact congrArg some hname
  · cases hch

theorem Solo.poll (h : Solo w) {active : List Active} (hphase : w.loop.phase = .polling)
    (hnodup : (active.filterMap Active.owner?).Nodup) (hreported : ∀ a ∈ active, Reported w a) :
    Solo { w with loop := w.loop.dispatch active } := by
  let w' : World := { w with loop := w.loop.dispatch active }
  have hcallbacks : w.callbacks = [] := h.idle fun active' he => by rw [hphase] at he; cases he
  have hseen : w'.seen = active.countP Active.isConnector := by
    change active.countP Active.isConnector + w.callbacks.countP isHandleWrite = _
    rw [hcallbacks]
    rfl
  have hsingle : ∀ a ∈ active, a.isConnector = true → w.connector.state = .kConnecting ∧
      ∃ name, w.connector.channel.map Prod.fst = some name ∧ a.owner? = some (.connector name) := by
    intro a ha hconnector
    cases a with
    | channel owner revents =>
        cases owner with
        | connector name =>
            obtain ⟨hstate, hname⟩ := h.reported (hreported _ ha)
            exact ⟨hstate, name, hname, rfl⟩
        | conn id => cases hconnector
    | timerfd => cases hconnector
    | other => cases hconnector
  change Solo w'
  refine { h with
    resets := ?_
    single := ?_
    event := fun hpos => ?_
    idle := fun hnot => absurd rfl (hnot active) }
  · have hconnectors : w'.connectors = w.connectors := connectors_eq (EventLoop.queued_polling hphase).symm
    rw [hconnectors]
    exact h.resets
  · rw [hseen]
    by_cases hany : ∃ a ∈ active, a.isConnector = true
    · obtain ⟨a, ha, hconnector⟩ := hany
      obtain ⟨_, name, hname, _⟩ := hsingle a ha hconnector
      refine le_trans ?_ (List.nodup_iff_count_le_one.mp hnodup (.connector name))
      rw [List.count, List.countP_filterMap]
      refine List.countP_mono_left fun a' ha' hconnector' => ?_
      obtain ⟨_, name', hname', howner⟩ := hsingle a' ha' hconnector'
      cases hname.symm.trans hname'
      simp [howner]
    · have hzero : active.countP Active.isConnector = 0 :=
        List.countP_eq_zero.mpr fun a ha hconnector => hany ⟨a, ha, hconnector⟩
      rw [hzero]
      exact Nat.zero_le _
  · rw [hseen] at hpos
    obtain ⟨a, ha, hconnector⟩ := List.countP_pos_iff.mp hpos
    exact (hsingle a ha hconnector).1

/-! ### Timers and functors -/

theorem Solo.expired (h : Solo w) {timers : List Timer} (expired : List Timer) (hsub : timers.Sublist w.timers) :
    Solo { w with timers, expired } :=
  { h with
    fresh := fun hoff => (h.fresh hoff).imp_right fun hno => hno.imp_right fun hno hmem => hno (hsub.subset hmem)
    once := (hsub.count_le .startInLoop).trans h.once
    retrying := fun hmem => h.retrying (hsub.subset hmem) }

/-- A functor of the connector is called: it is `resetChannel` of the channel that waits for it. -/
theorem Solo.released (h : Solo w) {f : Connector.Functor} {functors : List Functor}
    (hphase : w.loop.phase = .calling (.connector f :: functors)) :
    (∃ name, f = .resetChannel name ∧ w.connector.channel.map Prod.fst = some name) ∧
      Solo { w with
        connector := w.connector.resetChannel
        loop := w.loop.callRest functors
        called := w.called ++ [.connector f] } := by
  have hresets := h.resets
  have hconnectors : w.connectors = f :: (functors ++ w.loop.pendingFunctors).filterMap Functor.connector? := by
    unfold World.connectors
    rw [EventLoop.queued_calling hphase]
    rfl
  rw [hconnectors] at hresets
  split_ifs at hresets with hstate
  cases hch : w.connector.channel with
  | none =>
      rw [hch] at hresets
      cases hresets
  | some c =>
      rw [hch] at hresets
      obtain ⟨hf, hrest⟩ := List.cons.inj hresets
      refine ⟨⟨c.1, hf, rfl⟩, ?_⟩
      let w' : World := { w with
        connector := w.connector.resetChannel
        loop := w.loop.callRest functors
        called := w.called ++ [.connector f] }
      have hseen : w'.seen ≤ w.seen := by
        change 0 + w.callbacks.countP _ ≤ _
        exact Nat.add_le_add_right (Nat.zero_le _) _
      change Solo w'
      refine ⟨h.destroyed, h.client, fun hoff => ?_, h.once, h.retrying, fun hconnecting => absurd hconnecting hstate, ?_,
        h.inflight, hseen.trans h.single, fun hpos => h.event (Nat.lt_of_lt_of_le hpos hseen), fun _ => h.idle ?_,
        fun n => ?_⟩
      · exact ⟨(h.fresh hoff).1, rfl, (h.fresh hoff).2.2⟩
      · have hafter : w'.connectors = [] := hrest
        rw [hafter]
        exact (if_neg hstate).symm
      · rw [hphase]
        nofun
      · have hbefore : w.attempt n = none := if_neg hstate
        have hnone : w'.attempt n = none := if_neg hstate
        rw [hnone, ← hbefore]
        exact h.tracks n

/-! ### Steps -/

/-- `connect` is called only when the connector was not started, and not by another thread, and the client is not
destroyed. -/
def Once (w : World) : Event → Prop
  | .connect _ => w.connector.enableConnect = false
  | .destroy | .otherConnect => False
  | _ => True

instance (w : World) : (e : Event) → Decidable (Once w e)
  | .connect _ => inferInstanceAs (Decidable (_ = _))
  | .destroy | .otherConnect => .isFalse not_false
  | .enterLoop | .poll _ | .handleEvent | .handleCallback _ _ _ _ | .timerCallback _ _ | .swapFunctors
  | .callFunctor _ _ _ | .endFunctors | .userCode _ | .disconnect | .enableRetry | .call _ _ _ _
  | .retrieve _ _ | .otherCall _ _ | .otherPush _ | .copy _ | .drop _ => .isTrue trivial

theorem Solo.close (h : Solo w) (hinv : Inv w) {rest : List (Nat × Rest)} {a : Connector.Connect}
    (hok : World.close { w with rest } id a = .ok w') : Solo w' := by
  unfold World.close at hok
  split at hok
  · obtain ⟨_, _, hok⟩ := bind_eq_ok.mp hok
    obtain ⟨_, hcheck, hok⟩ := bind_eq_ok.mp hok
    have hc : w.connection = some id := check_eq_ok.mp hcheck
    have hstate : w.connector.state = .kConnected := hinv.base.connected (by rw [hc]; nofun)
    let w₁ : World := { w with rest, connection := none }.queueInLoop true (.conn id .connectDestoryed)
    have hempty : Aside w { w with rest, connection := none } := { Aside.refl w with }
    have hclosed : Solo w₁ := h.aside (hempty.trans queue_aside)
    by_cases hretry : (w.retry && w.enableConnect) = true
    · have hrestart : w₁.restart a = .ok w' := (if_pos hretry).symm.trans hok
      have hne : w.connector.state ≠ .kConnecting := by
        rw [hstate]
        nofun
      have hrest := hclosed.rest (c := restarted w.connector) hne rfl rfl rfl
      exact hrest.startInLoop (h.not_retrying (by rw [hstate]; nofun)) ((restart_startInLoop _ _).symm.trans hrestart)
    · cases (if_neg hretry).symm.trans hok
      exact hclosed
  · next hdetails => cases (h.client id).symm.trans hdetails

theorem Solo.runCallback (h : Solo w) {owner : Owner} {cb : EventCallback} {callbacks : List (Owner × EventCallback)}
    (hcallbacks : w.callbacks = (owner, cb) :: callbacks) {r : Option (List UInt8)} {wr : WriteResult} {err : Nat}
    {isSelfConnect : Bool} (hok : World.runCallback { w with callbacks } r wr err isSelfConnect cb owner = .ok w') :
    Solo w' := by
  let w₁ : World := { w with callbacks }
  have hseen : w.seen = w₁.seen + if isHandleWrite (owner, cb) = true then 1 else 0 := by
    change w.batch.countP _ + w.callbacks.countP _ = w.batch.countP _ + callbacks.countP _ + _
    rw [hcallbacks, List.countP_cons, Nat.add_assoc]
  have hpop : Aside w w₁ := by
    refine { Aside.refl w with seen := Nat.le.intro hseen.symm, idle := fun hnot hidle => ?_ }
    have hnil := hidle hnot
    rw [hcallbacks] at hnil
    cases hnil
  have hsolo : Solo w₁ := h.aside hpop
  cases owner with
  | conn id =>
      obtain ⟨o, _, hok⟩ := bind_eq_ok.mp hok
      exact hsolo.aside (finish_aside hok)
  | connector name =>
      obtain ⟨o, ho, hfinish⟩ := bind_eq_ok.mp hok
      cases cb with
      | write =>
          have hone : w.seen = w₁.seen + 1 := hseen
          have hstate : w₁.connector.state = .kConnecting := h.event (hone ▸ Nat.succ_pos _)
          have hsingle := h.single
          exact hsolo.handleWrite (by omega) hstate ho hfinish
      | close =>
          cases ho
          exact finishConnector_self hfinish ▸ hsolo
      | read =>
          cases ho
          exact finishConnector_self hfinish ▸ hsolo

theorem Solo.runTimer (h : Solo w) {i : Nat} {t : Timer} (ht : w.timers[i]? = some t) {a : Connector.Connect}
    (hok : World.runTimer { w with timers := w.timers.eraseIdx i, expired := w.expired ++ [t] } a t = .ok w') :
    Solo w' := by
  obtain ⟨hi, hget⟩ := List.getElem?_eq_some_iff.mp ht
  have hsolo := h.expired (w.expired ++ [t]) (w.timers.eraseIdx_sublist i)
  cases t with
  | forceCloseInLoop id =>
      obtain ⟨o, _, hok⟩ := bind_eq_ok.mp hok
      exact hsolo.aside (finish_aside hok)
  | startInLoop =>
      refine hsolo.startInLoop (fun hmem => ?_) hok
      -- the timer was the only one of its kind
      have hperm : (w.timers[i] :: w.timers.eraseIdx i).Perm w.timers := List.getElem_cons_eraseIdx_perm hi
      have honce := h.once
      rw [← hperm.count_eq, hget, List.count_cons_self] at honce
      have hpos : 0 < (w.timers.eraseIdx i).count .startInLoop := List.count_pos_iff.mpr hmem
      omega

theorem Solo.step (h : Solo w) (hinv : Inv w) {e : Event} (hen : Enabled w e) (honce : Once w e)
    (hok : step w e = .ok w') : Solo w' := by
  cases e with
  | enterLoop =>
      cases hok
      refine h.aside (idle_aside (fun _ he => by cases he) (congrArg _ (EventLoop.queued_beforeLoop hen).symm) (h.idle ?_))
      rw [show w.loop.phase = .beforeLoop from hen]
      simp
  | poll active =>
      cases hok
      exact h.poll hen.1 hen.2.1 hen.2.2
  | handleEvent => exact h.aside (handleEvent_aside hen.2.1 hen.2.2 hok)
  | handleCallback r wr err isSelfConnect =>
      obtain ⟨⟨owner, cb⟩, callbacks, hcb⟩ := List.exists_cons_of_ne_nil hen.2
      simp only [TcpClient.step, hcb] at hok
      exact h.runCallback hcb hok
  | timerCallback i a =>
      obtain ⟨t, ht⟩ : ∃ t, w.timers[i]? = some t := ⟨_, List.getElem?_eq_getElem hen.2.2.1⟩
      simp only [TcpClient.step, ht] at hok
      exact h.runTimer ht hok
  | swapFunctors =>
      cases hok
      refine h.aside (idle_aside (fun _ he => by cases he) (congrArg _ ?_) hen.2.1)
      exact EventLoop.queued_swapFunctors.trans (EventLoop.queued_dispatching hen.2.2).symm
  | callFunctor mem wr a =>
      obtain ⟨f, hf⟩ := Option.ne_none_iff_exists'.mp hen.2
      obtain ⟨functors, hphase⟩ := Phase.nextFunctor_eq_some.mp hf
      have hcallbacks : w.callbacks = [] := h.idle (by rw [hphase]; simp)
      simp only [TcpClient.step, hphase] at hok
      cases f with
      | conn id f =>
          have hpop : Aside w { w with loop := w.loop.callRest functors, called := w.called ++ [.conn id f] } := by
            refine idle_aside (fun _ he => by cases he) ?_ hcallbacks
            unfold World.connectors
            rw [EventLoop.queued_calling hphase]
            rfl
          exact h.aside (hpop.trans (runConn_aside hok))
      | connector f =>
          obtain ⟨⟨name, rfl, _⟩, hreleased⟩ := h.released hphase
          obtain ⟨_, _, hok⟩ := bind_eq_ok.mp hok
          cases hok
          exact hreleased
  | endFunctors =>
      cases hok
      exact h.aside (idle_aside (fun _ he => by cases he) (congrArg _ (EventLoop.queued_calling hen.2).symm)
        (h.idle (by rw [hen.2]; simp)))
  | userCode a =>
      obtain ⟨⟨id, r⟩, rest, hrest⟩ := List.exists_cons_of_ne_nil hen
      simp only [TcpClient.step, hrest] at hok
      cases r with
      | closeCallback => exact h.close hinv hok
      | remove =>
          obtain ⟨p, hremove, hok⟩ := bind_eq_ok.mp hok
          cases hok
          have hforget : Aside w { w with rest, poller := p.1 } :=
            { Aside.refl w with tracks := fun _ _ ho => ho.of_removed (removeChannel_removed hremove) }
          exact h.aside (hforget.trans setTcp_aside)
      | connectionUp | connectionDown | messageCallback =>
          cases hok
          exact h.aside { Aside.refl w with }
  | connect a =>
      obtain ⟨hstate, _, hno⟩ := h.fresh honce
      have hrest := h.rest (c := w.connector.start.1) (by rw [hstate]; simp) hstate rfl rfl
      let w₁ : World := { w with connector := w.connector.start.1 }
      have hstart : Solo { w₁ with enableConnect := true } := hrest.aside { Aside.refl w₁ with }
      exact hstart.startInLoop hno hok
  | disconnect =>
      simp only [TcpClient.step, World.disconnect] at hok
      have hoff : Solo { w with enableConnect := false } := h.aside { Aside.refl w with }
      split at hok
      · exact hoff.aside (call_aside hok)
      · cases hok
        exact hoff
  | enableRetry =>
      cases hok
      exact h.aside { Aside.refl w with }
  | call id k mem wr => exact h.aside (call_aside hok)
  | retrieve id len =>
      obtain ⟨b, _, hok⟩ := bind_eq_ok.mp hok
      cases hok
      exact h.aside setTcp_aside
  | destroy => exact honce.elim
  | otherConnect => exact honce.elim
  | otherCall id k =>
      simp only [TcpClient.step] at hok
      split at hok
      · cases hok
        refine h.aside (setTcp_aside.trans (inflight_aside ?_))
        rw [List.filterMap_append]
        exact List.append_nil _
      · cases hok
        exact h.aside setTcp_aside
  | otherPush i =>
      obtain ⟨f, hf⟩ : ∃ f, w.inflight[i]? = some f := ⟨_, List.getElem?_eq_getElem hen⟩
      simp only [TcpClient.step, hf] at hok
      cases hok
      have hconn : ∀ f ∈ w.inflight, f.connector? = none := List.filterMap_eq_nil_iff.mp h.inflight
      cases f with
      | connector f => cases hconn _ (List.mem_of_getElem? hf)
      | conn id f =>
          refine (h.aside queue_aside).aside (inflight_aside ?_)
          refine Eq.trans ?_ h.inflight.symm
          exact List.filterMap_eq_nil_iff.mpr fun g hg => hconn g (List.mem_of_mem_eraseIdx hg)
  | copy id =>
      cases hok
      exact h.aside { Aside.refl w with }
  | drop id =>
      cases hok
      exact h.aside { Aside.refl w with }

theorem Solo.init (retry writeComplete : Bool) : Solo (init retry writeComplete) :=
  ⟨rfl, fun _ => rfl, fun _ => ⟨rfl, rfl, nofun⟩, Nat.zero_le _, nofun, nofun, rfl, rfl, Nat.zero_le _,
    fun hpos => absurd hpos (lt_irrefl 0), fun _ => rfl, fun _ => new_tracks _ _⟩

/-! ### What holds of every step -/

/-- The attempts in progress, the pending retry timers and the client's connection that is not closed. -/
def attempts (w : World) : Nat :=
  (if w.connector.state = .kConnecting then 1 else 0) + w.timers.count .startInLoop +
    if ∃ id ∈ w.connection, (w.conn id).tcp.state ≠ .kDisconnected then 1 else 0

/-- The channel for which the functor would empty `channel_`. -/
def Functor.reset? : Functor → Option Nat
  | connector (.resetChannel name) => some name
  | _ => none

/-- There is at most one attempt, retry timer or open connection, and a `resetChannel` that is called finds the
channel it was queued for. -/
def Single (w : World) (e : Event) (w' : World) : Prop :=
  attempts w' ≤ 1 ∧ match e with
    | .callFunctor _ _ _ => ∀ f ∈ w.loop.phase.nextFunctor, ∀ name ∈ f.reset?,
        w.connector.channel.map Prod.fst = some name
    | _ => True

instance (w : World) (e : Event) (w' : World) : Decidable (Single w e w') := by
  unfold Single
  cases e <;> infer_instance

/-- No `resetChannel` is queued. -/
def Released (w : World) : Prop := ∀ f ∈ w.loop.queued, f.reset? = none

instance (w : World) : Decidable (Released w) := inferInstanceAs (Decidable (∀ f ∈ _, _))

/-- When a close restarts the connector, or a retry timer runs, and the new socket gets under way, the `resetChannel`
of the last attempt was called. -/
def StartsAfterReset (w : World) : Event → Prop
  | .userCode a => w.rest.head?.map Prod.snd = some .closeCallback → w.retry = true → w.enableConnect = true →
      a.isConnecting = true → Released w
  | .timerCallback i a => w.timers[i]? = some .startInLoop → a.isConnecting = true → Released w
  | _ => True

instance (w : World) : (e : Event) → Decidable (StartsAfterReset w e)
  | .userCode _ => inferInstanceAs (Decidable (_ → _ → _ → _ → _))
  | .timerCallback _ _ => inferInstanceAs (Decidable (_ → _ → _))
  | .enterLoop | .poll _ | .handleEvent | .handleCallback _ _ _ _ | .swapFunctors | .callFunctor _ _ _ | .endFunctors
  | .connect _ | .disconnect | .enableRetry | .call _ _ _ _ | .retrieve _ _ | .destroy | .otherConnect
  | .otherCall _ _ | .otherPush _ | .copy _ | .drop _ => .isTrue trivial

theorem Solo.attempts_le (h : Solo w) (hinv : Inv w) : attempts w ≤ 1 := by
  have hopen : (∃ id ∈ w.connection, (w.conn id).tcp.state ≠ .kDisconnected) → w.connector.state = .kConnected := by
    rintro ⟨id, hc, _⟩
    exact hinv.base.connected (Option.ne_none_iff_exists'.mpr ⟨id, hc⟩)
  have hnot : w.connector.state ≠ .kDisconnected → w.timers.count .startInLoop = 0 := fun hstate =>
    List.count_eq_zero.mpr (h.not_retrying hstate)
  have honce := h.once
  unfold attempts
  cases hstate : w.connector.state with
  | kDisconnected =>
      rw [if_neg nofun, if_neg fun he => by cases hstate.symm.trans (hopen he)]
      omega
  | kConnecting =>
      rw [if_pos rfl, hnot (by rw [hstate]; nofun), if_neg fun he => by cases hstate.symm.trans (hopen he)]
  | kConnected =>
      rw [if_neg nofun, hnot (by rw [hstate]; nofun)]
      split_ifs <;> simp

/-- A channel waits for `resetChannel` exactly while that is queued. -/
theorem Solo.released_iff (h : Solo w) (hstate : w.connector.state ≠ .kConnecting) :
    Released w ↔ w.connector.channel = none := by
  have hresets := h.resets
  rw [if_neg hstate] at hresets
  constructor
  · intro hreleased
    cases hch : w.connector.channel with
    | none => rfl
    | some c =>
        have hmem : Connector.Functor.resetChannel c.1 ∈ w.connectors := by
          rw [hresets, hch]
          exact List.mem_singleton.mpr rfl
        obtain ⟨f, hf, hconnector⟩ := List.mem_filterMap.mp hmem
        cases f <;> cases hconnector
        cases hreleased _ hf
  · intro hch f hf
    rw [hch] at hresets
    have hnone := List.filterMap_eq_nil_iff.mp hresets f hf
    cases f with
    | conn id f => rfl
    | connector f => cases hnone

/-! ### Where a step fails -/

theorem startInLoop_fails (hstate : w.connector.state = .kDisconnected) {a : Connector.Connect}
    (hch : w.connector.enableConnect = true → a.isConnecting = true → w.connector.channel = none) :
    FailsElsewhere (w.startInLoop a) := by
  rcases Connector.startInLoop_cases w.connector w.sockets a with ⟨hne, _⟩ | ⟨_, ⟨hon, ha, hsome⟩, _⟩ | ⟨_, o, _, ho⟩
  · exact absurd hstate hne
  · exact absurd (hch hon ha) hsome
  · unfold World.startInLoop
    rw [ho]
    exact finishConnector_fails

theorem startInLoop_unreleased (hstate : w.connector.state = .kDisconnected) (hon : w.connector.enableConnect = true)
    {a : Connector.Connect} (ha : a.isConnecting = true) (hch : w.connector.channel ≠ none) :
    w.startInLoop a = .error .connecting := by
  unfold World.startInLoop
  rw [Connector.startInLoop_connect hstate hon, Connector.connect_unreleased ha hch]
  rfl

theorem Solo.close_cases (h : Solo w) (hinv : Inv w) {rest : List (Nat × Rest)}
    (hrest : w.rest = (id, .closeCallback) :: rest) (a : Connector.Connect) : w.connector.state = .kConnected ∧
      ((w.retry = true ∧ w.enableConnect = true) ∧ (∃ w₁ : World, w₁.connector = restarted w.connector ∧
          World.close { w with rest } id a = w₁.startInLoop a) ∨
        ¬ (w.retry = true ∧ w.enableConnect = true) ∧ ∃ w₁, World.close { w with rest } id a = .ok w₁) := by
  have hmem : (id, Rest.closeCallback) ∈ w.rest := by
    rw [hrest]
    exact List.mem_cons_self
  have hmade : Made w id := hinv.base.mentioned id (Or.inr (Or.inr (Or.inl ⟨.closeCallback, hmem⟩)))
  have hc : w.connection = some id :=
    ((hinv.base.sound id hmade).closing (List.count_pos_iff.mpr hmem)).2.2 (h.client id)
  let w₁ : World := { w with rest, connection := none }.queueInLoop true (.conn id .connectDestoryed)
  have hclose : World.close { w with rest } id a = if w.retry && w.enableConnect then w₁.restart a else .ok w₁ := by
    simp only [World.close, h.client id, World.removeConnection, check_pos h.destroyed, check_pos hc, ok_bind]
    rfl
  refine ⟨hinv.base.connected (by rw [hc]; simp), ?_⟩
  by_cases hretry : w.retry = true ∧ w.enableConnect = true
  · refine Or.inl ⟨hretry, { w₁ with connector := restarted w.connector }, rfl, ?_⟩
    rw [hclose, hretry.1, hretry.2]
    exact restart_startInLoop w₁ a
  · exact Or.inr ⟨hretry, w₁, hclose.trans (if_neg (by simpa using hretry))⟩

/-- The steps that fail in an assertion of the connector or of `removeConnection` are those that start an attempt
too early. -/
theorem Solo.step_fails (h : Solo w) (hinv : Inv w) {e : Event} (hen : Enabled w e) (honce : Once w e)
    (hreset : StartsAfterReset w e) : FailsElsewhere (TcpClient.step w e) := by
  cases e with
  | enterLoop => exact .ok _
  | poll active => exact .ok _
  | handleEvent =>
      unfold TcpClient.step
      dsimp only
      split
      · exact (FailsElsewhere.check (by decide)).bind fun _ _ => .ok _
      · exact releaseConnector_fails
      · exact .ok _
      · exact .ok _
  | handleCallback r wr err isSelfConnect =>
      obtain ⟨⟨owner, cb⟩, callbacks, hcb⟩ := List.exists_cons_of_ne_nil hen.2
      have hmem : (owner, cb) ∈ w.callbacks := by
        rw [hcb]
        exact List.mem_cons_self
      simp only [TcpClient.step, hcb]
      cases owner with
      | conn id =>
          have hs := hinv.base.sound id (hinv.base.mentioned id (Or.inr (Or.inl ⟨cb, hmem⟩)))
          exact (handleCallback_fails hs.validIn hs.validOut cb).bind fun _ _ => finish_fails
      | connector name =>
          cases cb with
          | write =>
              have hpos : 0 < w.seen := Nat.add_pos_right _ (List.countP_pos_iff.mpr ⟨_, hmem, rfl⟩)
              have hstate := h.event hpos
              obtain ⟨⟨name', ch⟩, hch⟩ := Option.ne_none_iff_exists'.mp (h.connecting hstate)
              exact (FailsElsewhere.of_ok (Connector.handleWrite_connecting hstate hch)).bind fun _ _ =>
                finishConnector_fails
          | close => exact finishConnector_fails
          | read => exact finishConnector_fails
  | timerCallback i a =>
      obtain ⟨t, ht⟩ : ∃ t, w.timers[i]? = some t := ⟨_, List.getElem?_eq_getElem hen.2.2.1⟩
      simp only [TcpClient.step, ht]
      cases t with
      | forceCloseInLoop id => exact forceCloseInLoop_fails.bind fun _ _ => finish_fails
      | startInLoop =>
          have hstate := h.retrying (List.mem_of_getElem? ht)
          let w₁ : World := { w with timers := w.timers.eraseIdx i, expired := w.expired ++ [.startInLoop] }
          exact startInLoop_fails (w := w₁) hstate fun _ ha =>
            (h.released_iff (by rw [hstate]; simp)).mp (hreset ht ha)
  | swapFunctors => exact .ok _
  | callFunctor mem wr a =>
      obtain ⟨f, hf⟩ := Option.ne_none_iff_exists'.mp hen.2
      obtain ⟨functors, hphase⟩ := Phase.nextFunctor_eq_some.mp hf
      simp only [TcpClient.step, hphase]
      cases f with
      | conn id f =>
          have hmem : .conn id f ∈ w.pending := by
            unfold World.pending
            rw [EventLoop.queued_calling hphase]
            exact List.mem_cons_self
          let w₁ : World := { w with loop := w.loop.callRest functors, called := w.called ++ [.conn id f] }
          exact runConn_fails (w := w₁) (hinv.base.sound id (hinv.base.mentioned id (Or.inl ⟨f, hmem⟩))).validOut
      | connector f =>
          obtain ⟨⟨name, rfl, _⟩, _⟩ := h.released hphase
          exact (FailsElsewhere.check (by decide)).bind fun _ _ => finishConnector_fails
  | endFunctors => exact .ok _
  | userCode a =>
      obtain ⟨⟨id, r⟩, rest, hrest⟩ := List.exists_cons_of_ne_nil hen
      simp only [TcpClient.step, hrest]
      cases r with
      | closeCallback =>
          change FailsElsewhere (World.close { w with rest } id a)
          obtain ⟨hstate, ⟨⟨hretry, hon⟩, w₁, hconnector, hclose⟩ | ⟨_, w₁, hclose⟩⟩ := h.close_cases hinv hrest a
          · rw [hclose]
            refine startInLoop_fails (by rw [hconnector]; rfl) fun _ ha => ?_
            rw [hconnector]
            exact (h.released_iff (by rw [hstate]; simp)).mp (hreset (by rw [hrest]; rfl) hretry hon ha)
          · exact .of_ok hclose
      | remove => exact removeChannel_fails.bind fun _ _ => .ok _
      | connectionUp | connectionDown | messageCallback => exact .ok _
  | connect a =>
      let w₁ : World := { w with enableConnect := true, connector := w.connector.start.1 }
      exact startInLoop_fails (w := w₁) (h.fresh honce).1 fun _ _ => (h.fresh honce).2.1
  | disconnect =>
      simp only [TcpClient.step, World.disconnect]
      split
      · next id hc =>
          have hmade : Made w id := hinv.base.mentioned id (Or.inr (Or.inr (Or.inr (Or.inr (Or.inr hc)))))
          exact call_fails (w := { w with enableConnect := false }) (hinv.base.sound id hmade).validOut
      · exact .ok _
  | enableRetry => exact .ok _
  | call id k mem wr => exact call_fails (hinv.base.sound id hen.1).validOut
  | retrieve id len =>
      obtain ⟨b, hb, _⟩ := Buffer.retrieve_spec (hinv.base.sound id hen.1).validIn hen.2.2.2
      exact (FailsElsewhere.of_ok hb).bind fun _ _ => .ok _
  | destroy => exact honce.elim
  | otherConnect => exact honce.elim
  | otherCall id k =>
      unfold TcpClient.step
      dsimp only
      split
      · exact .ok _
      · exact .ok _
  | otherPush i =>
      unfold TcpClient.step
      dsimp only
      split
      · exact .ok _
      · exact .ok _
  | copy id => exact .ok _
  | drop id => exact .ok _

/-- An attempt that starts too early fails the assertion of `connecting`. -/
theorem Solo.step_connecting (h : Solo w) (hinv : Inv w) {e : Event} (hearly : ¬ StartsAfterReset w e) :
    TcpClient.step w e = .error .connecting := by
  have hchannel : ∀ {c : Connector}, c.channel = w.connector.channel → w.connector.state ≠ .kConnecting →
      ¬ Released w → c.channel ≠ none := fun hc hstate hqueued hnone =>
    hqueued ((h.released_iff hstate).mpr (hc ▸ hnone))
  cases e with
  | timerCallback i a =>
      simp only [StartsAfterReset, Classical.not_imp] at hearly
      obtain ⟨ht, ha, hqueued⟩ := hearly
      have hmem := List.mem_of_getElem? ht
      have hstate := h.retrying hmem
      have hon : w.connector.enableConnect = true := by
        by_contra hoff
        exact (h.fresh (Bool.eq_false_iff.mpr hoff)).2.2 hmem
      simp only [TcpClient.step, ht]
      let w₁ : World := { w with timers := w.timers.eraseIdx i, expired := w.expired ++ [.startInLoop] }
      exact startInLoop_unreleased (w := w₁) hstate hon ha (hchannel rfl (by rw [hstate]; simp) hqueued)
  | userCode a =>
      simp only [StartsAfterReset, Classical.not_imp] at hearly
      obtain ⟨hhead, hretry, hon, ha, hqueued⟩ := hearly
      cases hrest : w.rest with
      | nil => rw [hrest] at hhead; cases hhead
      | cons p rest =>
          obtain ⟨id, r⟩ := p
          rw [hrest] at hhead
          cases hhead
          obtain ⟨hstate, ⟨_, w₁, hconnector, hclose⟩ | ⟨hno, _⟩⟩ := h.close_cases hinv hrest a
          · have hne : w.connector.state ≠ .kConnecting := by
              rw [hstate]
              simp
            simp only [TcpClient.step, hrest]
            refine hclose.trans (startInLoop_unreleased ?_ ?_ ha (hchannel ?_ hne hqueued))
            · rw [hconnector]
              rfl
            · rw [hconnector]
              rfl
            · rw [hconnector]
              rfl
          · exact absurd ⟨hretry, hon⟩ hno
  | _ => exact absurd trivial hearly

/-! ### Runs -/

/-- **When a reconnecting client runs one attempt.** For every client, with retry enabled or not, and every run of its
loop in which `connect` is called at most once, on the loop's thread, and the client is not destroyed, over all batches
of ready channels, answers of the sockets, functors, timers, user code, references and calls from other threads: after
each step there is at most one of an attempt in progress, a pending retry timer and an open connection, each
`resetChannel` empties `channel_` of the channel it was queued for, and no step fails an assertion of `startInLoop`,
`connecting`, `handleWrite` or `removeConnection`, if and only if each attempt starts after the `resetChannel` of the
last one. -/
theorem single_iff (retry writeComplete : Bool) (es : List Event)
    (hes : Along step (fun w e => Enabled w e ∧ Once w e) (init retry writeComplete) es) :
    Holds step Elsewhere Single (init retry writeComplete) es ↔
      Along step StartsAfterReset (init retry writeComplete) es := by
  refine holds_iff_along (I := fun w => Inv w ∧ Solo w) (fun w e hI hP hreset => ?_)
    (fun w e hI _ hearly hholds => ?_) ⟨.init retry writeComplete, .init retry writeComplete⟩ hes
  · obtain ⟨hinv, h⟩ := hI
    obtain ⟨hen, honce⟩ := hP
    refine ⟨h.step_fails hinv hen honce hreset, fun w' hok => ?_⟩
    have hsettled : Settled w e := by
      cases e with
      | destroy => exact honce.elim
      | drop id => exact fun hdetails => by cases (h.client id).symm.trans hdetails
      | _ => trivial
    have hinv' := hinv.step hen hsettled hok
    have h' := h.step hinv hen honce hok
    refine ⟨⟨h'.attempts_le hinv', ?_⟩, hinv', h'⟩
    cases e with
    | callFunctor mem wr a =>
        intro f hf name hname
        obtain ⟨functors, hphase⟩ := Phase.nextFunctor_eq_some.mp hf
        cases f with
        | conn id f => cases hname
        | connector f =>
            obtain ⟨⟨name', rfl, hchannel⟩, _⟩ := h.released hphase
            cases hname
            exact hchannel
    | _ => trivial
  · exact (hholds.1 _ (hI.2.step_connecting hI.1 hearly)).2.1 rfl

/-- The first attempt is refused and retried; the server closes the connection of the second one, and the client
connects again. -/
def reconnects : List Event :=
  [.connect ⟨7, ECONNREFUSED⟩, .enterLoop, .poll [.timerfd], .timerCallback 0 ⟨7, EINPROGRESS⟩, .handleEvent,
    .swapFunctors, .endFunctors, .poll [.channel (.connector 1) pollOut], .handleEvent,
    .handleCallback none (.ok 0) 0 false, .userCode ⟨8, 0⟩, .swapFunctors,
    .callFunctor (fun _ => 0) (.ok 0) ⟨8, 0⟩, .endFunctors, .poll [.channel (.conn 1) pollIn], .handleEvent,
    .handleCallback (some []) (.ok 0) 0 false, .userCode ⟨8, 0⟩, .userCode ⟨8, EINPROGRESS⟩]

theorem single_iff_run : Holds step Elsewhere Single (init true true) reconnects :=
  (single_iff true true reconnects (by decide +kernel)).mpr (by decide +kernel)

/-- The connection callback calls `forceCloseWithDelay(0)`, and the timerfd channel comes later in the same batch. -/
def restartsBeforeReset : List Event :=
  [.connect ⟨7, EINPROGRESS⟩, .enterLoop, .poll [.channel (.connector 0) pollOut, .timerfd], .handleEvent,
    .handleCallback none (.ok 0) 0 false, .call 1 .forceCloseWithDelay (fun _ => 0) (.ok 0), .userCode ⟨8, 0⟩,
    .timerCallback 0 ⟨8, 0⟩, .userCode ⟨8, 0⟩, .userCode ⟨8, EINPROGRESS⟩]

theorem restarts_before_reset :
    Along step (fun w e => Enabled w e ∧ Once w e) (init true true) restartsBeforeReset ∧
      ¬ Holds step Elsewhere Single (init true true) restartsBeforeReset := by
  constructor
  · decide +kernel
  · decide +kernel

end TcpClient

end OulaServer
