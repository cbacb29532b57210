import OulaServer.TcpClient.Spec

/-!
# When `disconnect` is final

`disconnect` resets the client's `enableConnect_`, which `removeConnection` reads, and leaves the connector's
own flag. It is final when it finds the connector at rest (`Rests`): no attempt in progress, no timer of `retry`
and no `startInLoop` on its way. Then the connector stays at rest until `connect` is called (`Leaves`). An
attempt that `disconnect` finds in progress goes on and makes a connection.
-/

namespace OulaServer

namespace TcpClient

open Run World

/-- No attempt is in progress, and none will start without a call. -/
def Rests (w : World) : Prop :=
  w.connector.state ≠ .kConnecting ∧ .startInLoop ∉ w.timers ∧ .connector .startInLoop ∉ w.pending

instance (w : World) : Decidable (Rests w) := inferInstanceAs (Decidable (_ ∧ _ ∧ _))

/-- `disconnect` is called while the connector is at rest. -/
def DisconnectsAtRest (w : World) : Event → Prop
  | .disconnect => Rests w
  | _ => True

instance (w : World) : (e : Event) → Decidable (DisconnectsAtRest w e)
  | .disconnect => inferInstanceAs (Decidable (Rests w))
  | .enterLoop | .poll _ | .handleEvent | .handleCallback _ _ _ _ | .timerCallback _ _ | .swapFunctors
  | .callFunctor _ _ _ | .endFunctors | .userCode _ | .connect _ | .enableRetry | .call _ _ _ _ | .retrieve _ _
  | .destroy | .otherConnect | .otherCall _ _ | .otherPush _ | .copy _ | .drop _ => .isTrue trivial

/-- After `disconnect`, and until `connect` is called again, a step makes no connection. -/
def Final (w : World) (_ : Event) (w' : World) : Prop := w.enableConnect = false → w'.nextConnId = w.nextConnId

instance (w : World) (e : Event) (w' : World) : Decidable (Final w e w') := inferInstanceAs (Decidable (_ → _))

/-- A step that calls neither `connect` nor `disconnect`. -/
structure Leaves (w w' : World) : Prop where
  enableConnect : w'.enableConnect = w.enableConnect
  rests : w.enableConnect = false → Rests w → Rests w' ∧ w'.nextConnId = w.nextConnId

variable {w w' w'' : World}

theorem Leaves.trans (h : Leaves w w') (h' : Leaves w' w'') : Leaves w w'' := by
  refine ⟨h'.enableConnect.trans h.enableConnect, fun hoff hrests => ?_⟩
  obtain ⟨hrests', hid⟩ := h.rests hoff hrests
  obtain ⟨hrests'', hid'⟩ := h'.rests (h.enableConnect.trans hoff) hrests'
  exact ⟨hrests'', hid'.trans hid⟩

theorem Leaves.of_frame (hon : w'.enableConnect = w.enableConnect) (hid : w'.nextConnId = w.nextConnId)
    (hconnector : w'.connector = w.connector) (htimers : .startInLoop ∈ w'.timers → .startInLoop ∈ w.timers)
    (hpending : .connector .startInLoop ∈ w'.pending → .connector .startInLoop ∈ w.pending) : Leaves w w' :=
  ⟨hon, fun _ ⟨hstate, ht, hp⟩ => ⟨⟨by rwa [hconnector], fun h => ht (htimers h), fun h => hp (hpending h)⟩, hid⟩⟩

theorem Leaves.of_queued (hon : w'.enableConnect = w.enableConnect) (hid : w'.nextConnId = w.nextConnId)
    (hconnector : w'.connector = w.connector) (htimers : w'.timers = w.timers) (hinflight : w'.inflight = w.inflight)
    (hqueued : w'.loop.queued = w.loop.queued) : Leaves w w' := by
  refine .of_frame hon hid hconnector (fun h => by rwa [← htimers]) fun h => ?_
  unfold pending at h ⊢
  rwa [hinflight, hqueued] at h

/-! ### Functions of connections -/

theorem finish_leaves {id : Nat} {o : Outcome} (hok : w.finish id o = .ok w') : Leaves w w' := by
  obtain ⟨channel, loop, poller, timers, rfl, hacts⟩ := finish_ok hok
  refine .of_frame rfl rfl rfl (fun h => ?_) fun h => ?_
  · change _ ∈ timers at h
    rw [hacts.timers] at h
    exact (List.mem_append.mp h).resolve_right fun hnew => nomatch mem_timersOf hnew
  · change _ ∈ loop.queued ++ w.inflight at h
    rw [hacts.queued, List.append_assoc] at h
    rcases List.mem_append.mp h with h | h
    · exact List.mem_append_left _ h
    · rcases List.mem_append.mp h with h | h
      · simp at h
      · exact List.mem_append_right _ h

theorem runConn_leaves {id : Nat} {mem : Memory} {wr : WriteResult} {f : ConnFunctor}
    (hok : w.runConn id mem wr f = .ok w') : Leaves w w' := by
  obtain ⟨o, _, hok⟩ := bind_eq_ok.mp hok
  exact finish_leaves hok

theorem queue_leaves {id : Nat} {b : Bool} {f : ConnFunctor} : Leaves w (w.queueInLoop b (.conn id f)) := by
  refine .of_frame rfl rfl rfl (fun h => h) fun h => ?_
  simpa [pending, queueInLoop] using h

theorem call_leaves {id : Nat} {c : TcpConnection.Call} {mem : Memory} {wr : WriteResult}
    (hok : w.call id c mem wr = .ok w') : Leaves w w' := by
  have hset (tcp : TcpConnection) : Leaves w (w.setTcp id tcp) := .of_queued rfl rfl rfl rfl rfl rfl
  unfold World.call at hok
  split at hok
  · exact (hset _).trans (runConn_leaves hok)
  · cases hok
    exact (hset _).trans queue_leaves
  · cases hok
    exact hset _

/-! ### Functions of the connector -/

theorem perform_enableConnect {e : Connector.Effect} (hok : w.performConnector e = .ok w') :
    w'.enableConnect = w.enableConnect := by
  cases e with
  | update =>
      obtain ⟨_, _, _, _, _, _, rfl⟩ := onPoller_ok hok
      rfl
  | remove =>
      obtain ⟨_, _, _, _, _, _, rfl⟩ := onPoller_ok hok
      rfl
  | newConnectionCallback fd =>
      obtain ⟨_, _, _, _, _, rfl, _⟩ := newConnection_ok hok
      rfl
  | _ =>
      cases hok
      rfl

theorem finishConnector_enableConnect {o : Connector.Outcome} (hok : w.finishConnector o = .ok w') :
    w'.enableConnect = w.enableConnect := by
  have hfold : ∀ (effects : List Connector.Effect) (w : World), effects.foldlM performConnector w = .ok w' →
      w'.enableConnect = w.enableConnect := by
    intro effects
    induction effects with
    | nil =>
        intro w hok
        cases hok
        rfl
    | cons e effects ih =>
        intro w hok
        obtain ⟨w₁, hone, hok⟩ := bind_eq_ok.mp ((List.foldlM_cons ..).symm.trans hok)
        exact (ih w₁ hok).trans (perform_enableConnect hone)
  exact hfold o.effects { w with connector := o.connector } hok

theorem startInLoop_nextConnId {a : Connector.Connect} (hok : w.startInLoop a = .ok w') :
    w'.enableConnect = w.enableConnect ∧ w'.nextConnId = w.nextConnId := by
  obtain ⟨o, ho, hok⟩ := bind_eq_ok.mp hok
  obtain ⟨_, hstarted⟩ := Connector.startInLoop_ok ho
  obtain ⟨_, _, _, _, _, rfl, _⟩ := finishConnector_ok hstarted.makesNone hok
  exact ⟨rfl, rfl⟩

theorem runConnector_leaves {mem : Memory} {wr : WriteResult} {a : Connector.Connect} {f : Connector.Functor}
    (hf : w.enableConnect = false → Rests w → f ≠ .startInLoop)
    (hok : w.runFunctor mem wr a (.connector f) = .ok w') : Leaves w w' := by
  obtain ⟨_, _, hok⟩ := bind_eq_ok.mp hok
  obtain ⟨o, ho, hok⟩ := bind_eq_ok.mp hok
  refine ⟨finishConnector_enableConnect hok, fun hoff hrests => ?_⟩
  cases f with
  | startInLoop => exact absurd rfl (hf hoff hrests)
  | stopInLoop =>
      rcases Connector.stopInLoop_ok ho with ⟨_, rfl⟩ | ⟨hstate, _⟩
      · cases finishConnector_self hok
        exact ⟨hrests, rfl⟩
      · exact absurd hstate hrests.1
  | resetChannel queuedFor =>
      cases ho
      cases hok
      exact ⟨hrests, rfl⟩

theorem runCallback_leaves {r : Option (List UInt8)} {wr : WriteResult} {err : Nat} {isSelfConnect : Bool}
    {cb : EventCallback} {owner : Owner} (hok : w.runCallback r wr err isSelfConnect cb owner = .ok w') :
    Leaves w w' := by
  cases owner with
  | conn id =>
      obtain ⟨o, _, hok⟩ := bind_eq_ok.mp hok
      exact finish_leaves hok
  | connector name =>
      obtain ⟨o, ho, hok⟩ := bind_eq_ok.mp hok
      refine ⟨finishConnector_enableConnect hok, fun _ hrests => ?_⟩
      have hself : o = { connector := w.connector } := by
        cases cb with
        | close => exact (Except.ok.inj ho).symm
        | read => exact (Except.ok.inj ho).symm
        | write =>
            rcases Connector.handleWrite_ok ho with ⟨_, rfl⟩ | ⟨hstate, _⟩
            · rfl
            · exact absurd hstate hrests.1
      subst hself
      cases finishConnector_self hok
      exact ⟨hrests, rfl⟩

/-! ### The client -/

theorem close_leaves {id : Nat} {a : Connector.Connect} (hok : w.close id a = .ok w') : Leaves w w' := by
  unfold World.close at hok
  split at hok
  · obtain ⟨_, _, hok⟩ := bind_eq_ok.mp hok
    obtain ⟨_, _, hok⟩ := bind_eq_ok.mp hok
    have hreset : Leaves w { w with connection := none } := .of_queued rfl rfl rfl rfl rfl rfl
    have hqueue : Leaves w ({ w with connection := none }.queueInLoop true (.conn id .connectDestoryed)) :=
      hreset.trans queue_leaves
    by_cases hrestart : (w.retry && w.enableConnect) = true
    · obtain ⟨o, _, hok⟩ := bind_eq_ok.mp ((if_pos hrestart).symm.trans hok)
      refine ⟨(finishConnector_enableConnect hok).trans rfl, fun hoff _ => ?_⟩
      simp [hoff] at hrestart
    · cases (if_neg hrestart).symm.trans hok
      exact hqueue
  · cases hok
    exact queue_leaves

theorem destroy_leaves (hok : w.destroy = .ok w') : Leaves w w' := by
  obtain ⟨w₁, hbody, hok⟩ := bind_eq_ok.mp hok
  have hlast : w' = { w₁ with connection := none, destroyed := true } := by
    obtain ⟨_, _, hok⟩ := bind_eq_ok.mp hok
    cases hok
    rfl
  have hone : Leaves w w₁ := by
    unfold World.dtor at hbody
    split at hbody
    · next id hid =>
        have hset : Leaves w { w with
            conn := Function.update w.conn id { w.conn id with closeCallback := .details } } :=
          .of_queued rfl rfl rfl rfl rfl rfl
        unfold World.abandon at hbody
        by_cases hunique : w.refs id = 1
        · simp only [hunique, decide_true, if_true] at hbody
          exact hset.trans (call_leaves hbody)
        · simp only [hunique, decide_false] at hbody
          cases hbody
          exact hset
    · cases hbody
      refine ⟨rfl, fun _ ⟨hstate, htimers, hpending⟩ => ⟨⟨hstate, htimers, fun h => hpending ?_⟩, rfl⟩⟩
      simpa [pending, queueInLoop, Connector.stop] using h
  subst hlast
  exact hone.trans (.of_queued rfl rfl rfl rfl rfl rfl)

/-- The step lemma: a step that calls neither `connect` nor `disconnect` leaves the connector at rest. -/
theorem step_leaves {e : Event} (hen : Enabled w e) (hcalls : (∀ a, e ≠ .connect a) ∧ e ≠ .disconnect ∧ e ≠ .otherConnect)
    (hok : step w e = .ok w') : Leaves w w' := by
  cases e with
  | enterLoop =>
      cases hok
      exact .of_queued rfl rfl rfl rfl rfl (EventLoop.queued_beforeLoop hen).symm
  | poll active =>
      cases hok
      exact .of_queued rfl rfl rfl rfl rfl (EventLoop.queued_polling hen.1).symm
  | handleEvent =>
      obtain ⟨a, ha⟩ := Option.ne_none_iff_exists'.mp hen.2.2
      obtain ⟨active, hphase⟩ := Phase.nextChannel_eq_some.mp ha
      have hqueued : (w.loop.dispatch active).queued = w.loop.queued := (EventLoop.queued_dispatching hphase).symm
      simp only [step, hphase] at hok
      cases a with
      | channel owner revents =>
          obtain ⟨_, _, hok⟩ := bind_eq_ok.mp hok
          cases hok
          exact .of_queued rfl rfl rfl rfl rfl hqueued
      | timerfd =>
          obtain ⟨_, _, hok⟩ := bind_eq_ok.mp hok
          cases hok
          exact .of_queued rfl rfl rfl rfl rfl hqueued
      | other =>
          cases hok
          exact .of_queued rfl rfl rfl rfl rfl hqueued
  | handleCallback r wr err isSelfConnect =>
      obtain ⟨⟨owner, cb⟩, callbacks, hcb⟩ := List.exists_cons_of_ne_nil hen.2
      simp only [step, hcb] at hok
      have hpop : Leaves w { w with callbacks } := .of_queued rfl rfl rfl rfl rfl rfl
      exact hpop.trans (runCallback_leaves hok)
  | timerCallback i a =>
      obtain ⟨t, ht⟩ : ∃ t, w.timers[i]? = some t := ⟨_, List.getElem?_eq_getElem hen.2.2.1⟩
      simp only [step, ht] at hok
      have hpop : Leaves w { w with timers := w.timers.eraseIdx i, expired := w.expired ++ [t] } :=
        .of_frame rfl rfl rfl List.mem_of_mem_eraseIdx fun h => h
      cases t with
      | startInLoop =>
          obtain ⟨hon, _⟩ := startInLoop_nextConnId hok
          exact ⟨hon, fun _ hrests => absurd (List.mem_of_getElem? ht) hrests.2.1⟩
      | forceCloseInLoop id =>
          obtain ⟨o, _, hok⟩ := bind_eq_ok.mp hok
          exact hpop.trans (finish_leaves hok)
  | swapFunctors =>
      cases hok
      refine .of_queued rfl rfl rfl rfl rfl ?_
      exact (EventLoop.queued_swapFunctors).trans (EventLoop.queued_dispatching hen.2.2).symm
  | callFunctor mem wr a =>
      obtain ⟨f, hf⟩ := Option.ne_none_iff_exists'.mp hen.2
      obtain ⟨functors, hphase⟩ := Phase.nextFunctor_eq_some.mp hf
      simp only [step, hphase] at hok
      have hmem : ∀ g ∈ functors ++ w.loop.pendingFunctors, g ∈ w.loop.queued := by
        intro g hg
        rw [EventLoop.queued_calling hphase]
        exact List.mem_cons_of_mem _ hg
      have hpop : Leaves w { w with loop := w.loop.callRest functors, called := w.called ++ [f] } := by
        refine .of_frame rfl rfl rfl (fun h => h) fun h => ?_
        exact (List.mem_append.mp h).elim (fun h => List.mem_append_left _ (hmem _ h)) (List.mem_append_right _)
      cases f with
      | conn id f => exact hpop.trans (runConn_leaves hok)
      | connector f =>
          by_cases hstart : f = .startInLoop
          · subst hstart
            refine ⟨?_, fun _ hrests => absurd ?_ hrests.2.2⟩
            · obtain ⟨_, _, hok⟩ := bind_eq_ok.mp hok
              obtain ⟨o, _, hok⟩ := bind_eq_ok.mp hok
              exact (finishConnector_enableConnect hok).trans rfl
            · rw [pending, EventLoop.queued_calling hphase]
              exact List.mem_cons_self
          · exact hpop.trans (runConnector_leaves (fun _ _ => hstart) hok)
  | endFunctors =>
      cases hok
      exact .of_queued rfl rfl rfl rfl rfl (EventLoop.queued_calling hen.2).symm
  | userCode a =>
      obtain ⟨⟨id, r⟩, rest, hrest⟩ := List.exists_cons_of_ne_nil hen
      simp only [step, hrest] at hok
      have hpop : Leaves w { w with rest } := .of_queued rfl rfl rfl rfl rfl rfl
      cases r with
      | closeCallback => exact hpop.trans (close_leaves hok)
      | remove =>
          obtain ⟨p, _, hok⟩ := bind_eq_ok.mp hok
          cases hok
          exact .of_queued rfl rfl rfl rfl rfl rfl
      | _ =>
          cases hok
          exact hpop
  | connect a => exact absurd rfl (hcalls.1 a)
  | disconnect => exact absurd rfl hcalls.2.1
  | enableRetry =>
      cases hok
      exact .of_queued rfl rfl rfl rfl rfl rfl
  | call id c mem wr => exact call_leaves hok
  | retrieve id len =>
      obtain ⟨b, _, hok⟩ := bind_eq_ok.mp hok
      cases hok
      exact .of_queued rfl rfl rfl rfl rfl rfl
  | destroy => exact destroy_leaves hok
  | otherConnect => exact absurd rfl hcalls.2.2
  | otherCall id c =>
      simp only [step] at hok
      split at hok
      · cases hok
        refine .of_frame rfl rfl rfl (fun h => h) fun h => ?_
        simpa [pending, setTcp] using h
      · cases hok
        exact .of_queued rfl rfl rfl rfl rfl rfl
  | otherPush i =>
      obtain ⟨f, hf⟩ : ∃ f, w.inflight[i]? = some f := ⟨_, List.getElem?_eq_getElem hen⟩
      simp only [step, hf] at hok
      cases hok
      refine .of_frame rfl rfl rfl (fun h => h) fun h => ?_
      have hqueued : (w.queueInLoop false f).loop.queued = w.loop.queued ++ [f] := EventLoop.queued_queueInLoop
      rw [pending, hqueued, List.append_assoc] at h
      rcases List.mem_append.mp h with h | h
      · exact List.mem_append_left _ h
      · rcases List.mem_append.mp h with h | h
        · rw [List.mem_singleton.mp h]
          exact List.mem_append_right _ (List.mem_of_getElem? hf)
        · exact List.mem_append_right _ (List.mem_of_mem_eraseIdx h)
  | copy id =>
      cases hok
      exact .of_queued rfl rfl rfl rfl rfl rfl
  | drop id =>
      cases hok
      exact .of_queued rfl rfl rfl rfl rfl rfl

theorem disconnect_rests (hok : w.disconnect = .ok w') (hrests : Rests w) :
    Rests w' ∧ w'.nextConnId = w.nextConnId := by
  have hset : Rests { w with enableConnect := false } := hrests
  unfold World.disconnect at hok
  cases hconn : w.connection with
  | none =>
      simp only [hconn] at hok
      cases hok
      exact ⟨hset, rfl⟩
  | some id =>
      simp only [hconn] at hok
      exact (call_leaves hok).rests rfl hset

theorem connect_flag {a : Connector.Connect} (hok : w.connect a = .ok w') :
    w'.enableConnect = true ∧ w'.nextConnId = w.nextConnId := by
  obtain ⟨hon, hid⟩ := startInLoop_nextConnId hok
  exact ⟨hon, hid⟩

/-- After `disconnect` the connector is at rest. -/
def Disconnected (w : World) : Prop := w.enableConnect = false → Rests w

/-- **When `disconnect` is final.** For every client, with retry enabled or not, and every run of its loop in which
each `disconnect` finds the connector at rest, over all batches of ready channels, answers of the sockets, functors,
timers, user code, references and calls from other threads: after `disconnect`, and until `connect` is called again,
no step makes a connection. -/
theorem final_of_along (retry writeComplete : Bool) (es : List Event)
    (hes : Along step (fun w e => Enabled w e ∧ DisconnectsAtRest w e) (init retry writeComplete) es) :
    Holds step anyError Final (init retry writeComplete) es := by
  refine holds_of_along (I := Disconnected) (fun w e h hen => ⟨fun _ _ => trivial, fun w' hok => ?_⟩)
    (fun hoff => nomatch (hoff : true = false)) hes
  obtain ⟨hen, hcond⟩ := hen
  cases e with
  | disconnect =>
      obtain ⟨hrests, hid⟩ := disconnect_rests hok hcond
      exact ⟨fun _ => hid, fun _ => hrests⟩
  | connect a =>
      obtain ⟨hon, hid⟩ := connect_flag hok
      refine ⟨fun _ => hid, fun hoff => ?_⟩
      rw [hon] at hoff
      cases hoff
  | otherConnect =>
      cases hok
      exact ⟨fun _ => rfl, nofun⟩
  | _ =>
      have hleaves := step_leaves hen ⟨nofun, nofun, nofun⟩ hok
      exact ⟨fun hoff => (hleaves.rests hoff (h hoff)).2, fun hoff =>
        (hleaves.rests (hleaves.enableConnect.symm.trans hoff) (h (hleaves.enableConnect.symm.trans hoff))).1⟩

/-- The client reconnects; `disconnect` is called while its connection is up, and the server closes it. -/
def disconnectsWhenUp : List Event :=
  [.connect ⟨7, EINPROGRESS⟩, .enterLoop, .poll [.channel (.connector 0) pollOut], .handleEvent,
    .handleCallback none (.ok 0) 0 false, .userCode ⟨8, 0⟩, .disconnect, .swapFunctors,
    .callFunctor (fun _ => 0) (.ok 0) ⟨8, 0⟩, .endFunctors, .poll [.channel (.conn 1) pollIn], .handleEvent,
    .handleCallback (some []) (.ok 0) 0 false, .userCode ⟨8, 0⟩, .userCode ⟨8, 0⟩, .swapFunctors,
    .callFunctor (fun _ => 0) (.ok 0) ⟨8, 0⟩, .userCode ⟨8, 0⟩, .endFunctors]

theorem final_of_along_run : Holds step anyError Final (init true true) disconnectsWhenUp :=
  final_of_along true true disconnectsWhenUp (by decide +kernel)

/-- `disconnect` is called while the attempt is in progress, which then succeeds. -/
def disconnectsWhileConnecting : List Event :=
  [.connect ⟨7, EINPROGRESS⟩, .disconnect, .enterLoop, .poll [.channel (.connector 0) pollOut], .handleEvent,
    .handleCallback none (.ok 0) 0 false]

theorem connected_after_disconnect :
    Along step Enabled (init false true) disconnectsWhileConnecting ∧
      ¬ Holds step anyError Final (init false true) disconnectsWhileConnecting := by
  constructor
  · decide +kernel
  · decide +kernel

end TcpClient

end OulaServer
