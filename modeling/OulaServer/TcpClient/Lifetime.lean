import OulaServer.TcpClient.Functions

/-!
# A client's connections die closed

Every step of a client's loop keeps what `OulaServer.TcpClient.References` says of its connections, if the client
is destroyed without a connection, or with the only reference to it, or while a forced close of it is under way
(`Settled`). A connection without references is then closed and not registered (`Inv.released`).
-/

namespace OulaServer

namespace TcpClient

open Run TcpConnection EpollPoller World

variable {w w' : World} {id : Nat}

structure Inv (w : World) : Prop where
  base : Base w
  owned : ∀ id, Owned w id

theorem Keeps.inv (h : Keeps w w') (hinv : Inv w) : Inv w' := ⟨h.1, fun id => h.2 id (hinv.owned id)⟩

theorem Owned.alive (h : Owned w id) (hopen : (w.conn id).tcp.Open) : Alive w id :=
  (h hopen).elim (fun hc => Or.inl (Or.inl hc)) fun ⟨_, _, hkept⟩ => hkept.imp_left Forced.held

/-- The close callback of an open connection is that of the client which holds it. -/
theorem Owned.client (h : Owned w id) (hopen : (w.conn id).tcp.Open) (hclient : (w.conn id).closeCallback = .client) :
    w.connection = some id := by
  rcases h hopen with hc | ⟨_, hdetails, _⟩
  · exact hc
  · rw [hclient] at hdetails
    cases hdetails

/-! ### The loop's thread moves on -/

theorem Inv.turn (h : Inv w) {loop : EventLoop Active Functor} {callbacks : List (Owner × EventCallback)}
    {called : List Functor} {expired : List Timer} (hqueued : loop.queued = w.loop.queued)
    (hkept : w.rest = [] ∨ called = w.called ∧ expired = w.expired)
    (hcallbacks : ∀ id cb, (.conn id, cb) ∈ callbacks → (.conn id, cb) ∈ w.callbacks ∨ Made w id)
    (hactive : ∀ id active revents, loop.phase = .dispatching active → .channel (.conn id) revents ∈ active →
      Made w id) : Inv { w with loop, callbacks, called, expired } := by
  let w' : World := { w with loop, callbacks, called, expired }
  have hpending : w'.pending = w.pending := congrArg (· ++ w.inflight) hqueued
  suffices hkeeps : Keeps w w' from hkeeps.inv h
  refine ⟨h.base.apart rfl (fun id => ?_) (fun id => ?_) h.base.connected h.base.destroyed, fun id ho => ?_⟩
  · refine { Apart.refl w id with destroying := ?_, called := fun hr hc => ?_, held := fun hpos hh => ?_ }
    · unfold Destroying
      rw [hpending]
    · rcases hkept with hrest | ⟨rfl, _⟩
      · unfold Removing at hr
        rw [hrest] at hr
        cases hr
      · exact hc
    · rcases hkept with hrest | ⟨rfl, rfl⟩
      · unfold closings at hpos
        rw [hrest] at hpos
        cases hpos
      · refine hh.mono (fun hc => hc) (fun f hf _ => ?_) fun ht => ht
        change f ∈ loop.queued ++ w.called ++ w.inflight
        rwa [hqueued]
  · refine { Fewer.refl w id with
        pending := fun f hf => Or.inl ?_, callbacks := hcallbacks id,
        active := fun active revents hphase hmem => Or.inr (hactive id active revents hphase hmem) }
    rwa [← hpending]
  · refine ho.apart rfl (fun hc => hc) rfl rfl fun hf => ?_
    unfold Forced at hf ⊢
    rwa [hpending]

/-! ### Functors and timers -/

theorem Base.forceClose (h : Base w) (hmade : Made w id) (hheld : Held w id)
    (hclient : (w.conn id).tcp.Open → (w.conn id).closeCallback = .client → w.connection = some id)
    (howned : ∀ id', id' ≠ id → Owned w id') {o : Outcome} (ho : (w.conn id).tcp.forceCloseInLoop true = .ok o)
    (hok : w.finish id o = .ok w') : Inv w' := by
  have hs := h.sound id hmade
  rcases forceCloseInLoop_cases hs.validIn hs.validOut ho with ⟨hno, hcalm⟩ | ⟨hopen, rfl⟩
  · obtain ⟨hbase, hkept⟩ := h.calm hmade hcalm hok
    refine ⟨hbase, fun id' => hkept id' ?_⟩
    by_cases hid : id' = id
    · subst hid
      exact fun hopen => absurd hopen hno
    · exact howned id' hid
  · obtain ⟨hbase, hkept⟩ := h.closes hmade hopen (Or.inl hheld) (hclient hopen) hs.validIn hok
    exact ⟨hbase, fun id' => hkept id' (howned id')⟩

theorem Base.taken (h : Base w) (hrest : w.rest = []) {f : Functor} {functors : List Functor}
    (hphase : w.loop.phase = .calling (f :: functors)) (hf : ∀ id, f ≠ .conn id .connectDestoryed) :
    let w' : World := { w with loop := w.loop.callRest functors, called := w.called ++ [f] }
    Base w' ∧ ∀ id, f ≠ .conn id .forceCloseInLoop → f ≠ .conn id .addTimerInLoop → Owned w id → Owned w' id := by
  intro w'
  have hpending : w.pending = f :: w'.pending := by
    unfold pending
    rw [EventLoop.queued_calling hphase]
    rfl
  have hback : ∀ g, g ≠ f → g ∈ w.pending → g ∈ w'.pending := fun g hne hg => by
    rw [hpending] at hg
    exact (List.mem_cons.mp hg).resolve_left hne
  have hsub : ∀ g, g ∈ w'.pending → g ∈ w.pending := fun g hg => by
    rw [hpending]
    exact List.mem_cons_of_mem _ hg
  have hzero : ∀ id, closings w id = 0 := fun id => by
    unfold closings
    rw [hrest]
    rfl
  refine ⟨h.apart rfl (fun id => ?_) (fun id => ?_) h.connected h.destroyed, fun id hforce htimer ho => ?_⟩
  · refine { Apart.refl w id with
        destroying := ⟨hsub _, hback _ (hf id).symm⟩, called := fun _ hc => List.mem_append_left _ hc,
        held := fun hpos => ?_ }
    rw [hzero] at hpos
    exact absurd hpos (lt_irrefl 0)
  · exact { Fewer.refl w id with pending := fun g hg => Or.inl (hsub _ hg), active := nofun }
  · refine ho.apart rfl (fun hc => hc) rfl rfl fun hforced => ?_
    rcases hforced with hg | hg | ht
    · exact Or.inl (hback _ hforce.symm hg)
    · exact Or.inr (Or.inl (hback _ htimer.symm hg))
    · exact Or.inr (Or.inr ht)

theorem Base.expired (h : Base w) {i : Nat} {t : Timer} (ht : w.timers[i]? = some t) :
    let w' : World := { w with timers := w.timers.eraseIdx i, expired := w.expired ++ [t] }
    Base w' ∧ ∀ id, t ≠ .forceCloseInLoop id → Owned w id → Owned w' id := by
  intro w'
  obtain ⟨hi, hget⟩ := List.getElem?_eq_some_iff.mp ht
  have hperm : (t :: w.timers.eraseIdx i).Perm w.timers := by
    rw [← hget]
    exact List.getElem_cons_eraseIdx_perm hi
  have hmem : ∀ t', t' ∈ w.timers ↔ t' = t ∨ t' ∈ w.timers.eraseIdx i := fun t' =>
    hperm.mem_iff.symm.trans List.mem_cons
  refine ⟨h.apart rfl (fun id => ?_) (fun id => ?_) h.connected h.destroyed, fun id hne ho => ?_⟩
  · refine { Apart.refl w id with held := fun _ hh => hh.mono (fun hc => hc) (fun f hf _ => hf) fun hx => ?_ }
    change _ ∈ w.timers.eraseIdx i ++ (w.expired ++ [t])
    simp only [List.mem_append, List.mem_singleton] at hx ⊢
    rw [hmem] at hx
    tauto
  · exact { Fewer.refl w id with timers := fun hx => Or.inl ((hmem _).mpr (Or.inr hx)) }
  · refine ho.apart rfl (fun hc => hc) rfl rfl fun hforced => ?_
    refine hforced.imp_right fun hforced => hforced.imp_right fun hx => ?_
    exact ((hmem _).mp hx).resolve_left hne.symm

theorem Base.addTimer (h : Base w) (hmade : Made w id) (howned : ∀ id', id' ≠ id → Owned w id')
    (hself : (w.conn id).tcp.Open → w.connection = some id ∨
      w.destroyed = true ∧ (w.conn id).closeCallback = .details)
    (hok : w.finish id { conn := (w.conn id).tcp, effects := [.addTimer] } = .ok w') : Inv w' := by
  have hs := h.sound id hmade
  have hcalm : Calm (w.conn id).tcp { conn := (w.conn id).tcp, effects := [.addTimer] } :=
    ⟨rfl, hs.validIn, hs.validOut, nofun, nofun, rfl, rfl, fun _ _ => ⟨rfl, by simp⟩⟩
  obtain ⟨hbase, hkept⟩ := h.calm hmade hcalm hok
  refine ⟨hbase, fun id' => ?_⟩
  by_cases hid : id' = id
  · subst hid
    cases hok
    intro hopen
    simp only [setTcp_self] at hopen ⊢
    refine (hself hopen).imp_right fun ⟨hd, hc⟩ => ⟨hd, hc, Or.inl (Or.inr (Or.inr ?_))⟩
    exact List.mem_append_right _ (List.mem_singleton.mpr rfl)
  · exact hkept id' (howned id' hid)

theorem Inv.callConn (h : Inv w) (hrest : w.rest = []) {f : ConnFunctor} {functors : List Functor}
    (hphase : w.loop.phase = .calling (.conn id f :: functors)) {mem : Memory} {wr : WriteResult}
    (hok : World.runConn { w with loop := w.loop.callRest functors, called := w.called ++ [.conn id f] } id mem wr f =
      .ok w') : Inv w' := by
  have hmem : .conn id f ∈ w.pending := by
    unfold pending
    rw [EventLoop.queued_calling hphase]
    exact List.mem_cons_self
  have hmade : Made w id := h.base.mentioned id (Or.inl ⟨f, hmem⟩)
  by_cases hdestroy : f = .connectDestoryed
  · subst hdestroy
    exact Keeps.inv (h.base.destroying hrest hphase hok) h
  have hne : ∀ id', Functor.conn id f ≠ .conn id' .connectDestoryed := fun id' he =>
    hdestroy (Functor.conn.inj he).2
  let w₁ : World := { w with loop := w.loop.callRest functors, called := w.called ++ [.conn id f] }
  obtain ⟨htaken, hkept⟩ : Base w₁ ∧ _ := h.base.taken hrest hphase hne
  have hothers : ∀ id', id' ≠ id → Owned w₁ id' := fun id' hid =>
    hkept id' (fun he => hid (Functor.conn.inj he).1.symm) (fun he => hid (Functor.conn.inj he).1.symm) (h.owned id')
  by_cases hforce : f = .forceCloseInLoop
  · subst hforce
    obtain ⟨o, ho, hok⟩ := bind_eq_ok.mp hok
    exact htaken.forceClose hmade (.of_called (List.mem_append_right _ (List.mem_singleton.mpr rfl)) rfl)
      (h.owned id).client hothers ho hok
  by_cases htimer : f = .addTimerInLoop
  · subst htimer
    obtain ⟨o, ho, hok⟩ := bind_eq_ok.mp hok
    cases ho
    exact htaken.addTimer hmade hothers (fun hopen => ((h.owned id) hopen).imp_right fun ⟨hd, hc, _⟩ => ⟨hd, hc⟩) hok
  have hself := hkept id (fun he => hforce (Functor.conn.inj he).2) (fun he => htimer (Functor.conn.inj he).2)
    (h.owned id)
  have howned : ∀ id', Owned w₁ id' := fun id' => by
    by_cases hid : id' = id
    · subst hid
      exact hself
    · exact hothers id' hid
  by_cases hestablish : f = .connectEstablished
  · -- a connection that was made is past `kConnecting`
    subst hestablish
    obtain ⟨o, ho, _⟩ := bind_eq_ok.mp hok
    obtain ⟨_, _, ho⟩ := bind_eq_ok.mp ho
    obtain ⟨_, hconnecting, _⟩ := bind_eq_ok.mp ho
    have hstate : (w.conn id).tcp.state = .kConnecting := check_eq_ok.mp hconnecting
    rcases (h.base.sound id hmade).state with (hs | hs) | hs <;> rw [hstate] at hs <;> cases hs
  · have hlife : ¬ f.IsLifecycle := fun hl =>
      (ConnFunctor.isLifecycle_iff.mp hl).elim hestablish fun hl => hl.elim hdestroy hforce
    exact Keeps.inv (htaken.runConn hmade hlife hok) ⟨htaken, howned⟩

/-! ### The connector -/

/-- `startInLoop` finds a connector at rest, so that the client has no connection. -/
theorem Inv.startInLoop (h : Inv w) {a : Connector.Connect} (hok : w.startInLoop a = .ok w') : Inv w' := by
  obtain ⟨o, ho, hok⟩ := bind_eq_ok.mp hok
  obtain ⟨hstate, hstarted⟩ := Connector.startInLoop_ok ho
  refine Keeps.inv (h.base.connector hstarted.makesNone (fun hc => ?_) hok) h
  have hconnected := h.base.connected hc
  rw [hstate] at hconnected
  cases hconnected

theorem Inv.runConnector (h : Inv w) {mem : Memory} {wr : WriteResult} {a : Connector.Connect}
    {f : Connector.Functor} (hok : w.runFunctor mem wr a (.connector f) = .ok w') : Inv w' := by
  obtain ⟨_, _, hok⟩ := bind_eq_ok.mp hok
  cases f with
  | startInLoop => exact h.startInLoop hok
  | stopInLoop =>
      obtain ⟨o, ho, hok⟩ := bind_eq_ok.mp hok
      rcases Connector.stopInLoop_ok ho with ⟨_, rfl⟩ | ⟨hstate, name, ch, _, rfl⟩
      · cases finishConnector_self hok
        exact h
      · refine Keeps.inv (h.base.connector (Connector.retry_makesNone (Connector.removal_makesNone name) _)
          (fun hc => ?_) hok) h
        have hconnected := h.base.connected hc
        rw [hstate] at hconnected
        cases hconnected
  | resetChannel queuedFor =>
      obtain ⟨o, ho, hok⟩ := bind_eq_ok.mp hok
      cases ho
      exact Keeps.inv (h.base.connector (fun _ => List.not_mem_nil) h.base.connected hok) h

theorem Inv.handleWrite (h : Inv w) {err : Nat} {isSelfConnect : Bool} {o : Connector.Outcome}
    (ho : w.connector.handleWrite err isSelfConnect = .ok o) (hok : w.finishConnector o = .ok w') : Inv w' := by
  rcases Connector.handleWrite_ok ho with ⟨_, rfl⟩ | ⟨hstate, name, ch, _, rfl | ⟨tail, rfl, htail⟩⟩
  · cases finishConnector_self hok
    exact h
  · refine Keeps.inv (h.base.connector (Connector.retry_makesNone (Connector.removal_makesNone name) _)
      (fun hc => ?_) hok) h
    have hconnected := h.base.connected hc
    rw [hstate] at hconnected
    cases hconnected
  · have hnone : w.connection = none := by
      by_contra hc
      have hconnected := h.base.connected hc
      rw [hstate] at hconnected
      cases hconnected
    -- up to the call of `newConnectionCallback_`, if there is one
    let o : Connector.Outcome :=
      { connector := { w.connector.removed name ch with state := .kConnected }, effects := Connector.removal name }
    obtain ⟨w₁, hremoval, hcall⟩ := bind_eq_ok.mp (List.foldlM_append.symm.trans hok)
    have hfinish : w.finishConnector o = .ok w₁ := hremoval
    have hinv : Inv w₁ := Keeps.inv (h.base.connector (Connector.removal_makesNone name) (fun _ => rfl) hfinish) h
    obtain ⟨channel, loop, poller, timers, sockets, rfl, _⟩ :=
      finishConnector_ok (Connector.removal_makesNone name) hfinish
    rcases htail with ⟨rfl, _⟩ | rfl | rfl
    · obtain ⟨w₂, hnew, hlast⟩ := bind_eq_ok.mp (List.foldlM_cons.symm.trans hcall)
      cases hlast
      exact Keeps.inv (hinv.base.newConnection hnone rfl hnew) hinv
    · cases hcall
      exact hinv
    · cases hcall
      exact hinv

/-! ### Callbacks -/

theorem Inv.runCallback (h : Inv w) {owner : Owner} {cb : EventCallback} {callbacks : List (Owner × EventCallback)}
    (hcallbacks : w.callbacks = (owner, cb) :: callbacks) {r : Option (List UInt8)} {wr : WriteResult} {err : Nat}
    {isSelfConnect : Bool} (hok : World.runCallback { w with callbacks } r wr err isSelfConnect cb owner = .ok w') :
    Inv w' := by
  let w₁ : World := { w with callbacks }
  have hpop : Inv w₁ := h.turn rfl (Or.inr ⟨rfl, rfl⟩)
    (fun id cb' hmem => Or.inl (by rw [hcallbacks]; exact List.mem_cons_of_mem _ hmem))
    fun id active revents hphase hmem => h.base.mentioned id
      (Or.inr (Or.inr (Or.inr (Or.inr (Or.inl ⟨active, revents, hphase, hmem⟩)))))
  change w₁.runCallback r wr err isSelfConnect cb owner = .ok w' at hok
  cases owner with
  | conn id =>
      have hmade : Made w₁ id := by
        refine h.base.mentioned id (Or.inr (Or.inl ⟨cb, ?_⟩))
        rw [hcallbacks]
        exact List.mem_cons_self
      have hs := hpop.base.sound id hmade
      obtain ⟨o, ho, hok⟩ := bind_eq_ok.mp hok
      rcases handleCallback_cases hs.validIn hs.validOut ho with hcalm | ⟨hopen, b, hb, rfl⟩
      · exact Keeps.inv (hpop.base.calm hmade hcalm hok) hpop
      · obtain ⟨hbase, hkept⟩ := hpop.base.closes hmade hopen ((hpop.owned id).alive hopen)
          ((hpop.owned id).client hopen) hb hok
        exact ⟨hbase, fun id' => hkept id' fun _ => hpop.owned id'⟩
  | connector name =>
      obtain ⟨o, ho, hfinish⟩ := bind_eq_ok.mp hok
      cases cb with
      | write => exact hpop.handleWrite ho hfinish
      | close =>
          cases ho
          exact finishConnector_self hfinish ▸ hpop
      | read =>
          cases ho
          exact finishConnector_self hfinish ▸ hpop

theorem Inv.runTimer (h : Inv w) {i : Nat} {t : Timer} (ht : w.timers[i]? = some t) {a : Connector.Connect}
    (hok : World.runTimer { w with timers := w.timers.eraseIdx i, expired := w.expired ++ [t] } a t = .ok w') :
    Inv w' := by
  obtain ⟨hbase, hkept⟩ := h.base.expired ht
  cases t with
  | startInLoop => exact Inv.startInLoop ⟨hbase, fun id => hkept id nofun (h.owned id)⟩ hok
  | forceCloseInLoop id =>
      have hmade : Made w id :=
        h.base.mentioned id (Or.inr (Or.inr (Or.inr (Or.inl (List.mem_of_getElem? ht)))))
      obtain ⟨o, ho, hok⟩ := bind_eq_ok.mp hok
      refine hbase.forceClose hmade (Or.inr (Or.inr ?_)) (h.owned id).client (fun id' hid => hkept id' ?_ (h.owned id'))
        ho hok
      · exact List.mem_append_right _ (List.mem_append_right _ (List.mem_singleton.mpr rfl))
      · intro he
        cases he
        exact hid rfl

theorem Inv.close (h : Inv w) {rest : List (Nat × Rest)} (hrest : w.rest = (id, .closeCallback) :: rest)
    {a : Connector.Connect} (hok : World.close { w with rest } id a = .ok w') : Inv w' := by
  have hpos : 0 < closings w id := by
    refine List.count_pos_iff.mpr ?_
    rw [hrest]
    exact List.mem_cons_self
  have hmade : Made w id := by
    refine h.base.mentioned id (Or.inr (Or.inr (Or.inl ⟨.closeCallback, ?_⟩)))
    rw [hrest]
    exact List.mem_cons_self
  unfold World.close at hok
  split at hok
  · obtain ⟨_, _, hok⟩ := bind_eq_ok.mp hok
    obtain ⟨_, hcheck, hok⟩ := bind_eq_ok.mp hok
    have hc : w.connection = some id := check_eq_ok.mp hcheck
    let w₁ : World := { w with rest, connection := none }.queueInLoop true (.conn id .connectDestoryed)
    have hclosed : Inv w₁ := Keeps.inv (h.base.closed hrest (Or.inl ⟨hc, rfl⟩)) h
    by_cases hretry : (w.retry && w.enableConnect) = true
    · have hrestart : w₁.restart a = .ok w' := (if_pos hretry).symm.trans hok
      obtain ⟨o, ho, hok⟩ := bind_eq_ok.mp hrestart
      rw [Connector.restart_eq] at ho
      obtain ⟨_, hstarted⟩ := Connector.startInLoop_ok ho
      exact Keeps.inv (hclosed.base.connector hstarted.makesNone (fun hne => absurd rfl hne) hok) hclosed
    · cases (if_neg hretry).symm.trans hok
      exact hclosed
  · next hdetails =>
    cases hok
    have hne : w.connection ≠ some id := fun hc => by
      have hclient := ((h.base.sound id hmade).current hc).1
      cases hclient.symm.trans hdetails
    exact Keeps.inv (h.base.closed hrest (Or.inr ⟨hne, rfl⟩)) h

/-! ### The destructor -/

/-- No more is left to close of the connection, or a forced close of it is under way. -/
def Closes (w : World) (id : Nat) : Prop := Forced w id ∨ ¬ (w.conn id).tcp.Open ∧ closings w id = 0

instance (w : World) (id : Nat) : Decidable (Closes w id) := inferInstanceAs (Decidable (_ ∨ _))

/-- A connection that its destroyed client leaves behind is closed by someone: when the client is destroyed it has
the only reference, or a forced close of it is under way, or user code has a copy; and user code gives up its last
copy of a connection that was left behind when the connection closes. -/
def Settled (w : World) : Event → Prop
  | .destroy => ∀ id ∈ w.connection, w.refs id = 1 ∨ Forced w id ∨ 0 < w.copies id
  | .drop id => (w.conn id).closeCallback = .details → w.copies id = 1 → Closes w id
  | _ => True

instance (w : World) : (e : Event) → Decidable (Settled w e)
  | .destroy => inferInstanceAs (Decidable (∀ id ∈ w.connection, _))
  | .drop _ => inferInstanceAs (Decidable (_ → _ → _))
  | .enterLoop | .poll _ | .handleEvent | .handleCallback _ _ _ _ | .timerCallback _ _ | .swapFunctors
  | .callFunctor _ _ _ | .endFunctors | .userCode _ | .connect _ | .disconnect | .enableRetry | .call _ _ _ _
  | .retrieve _ _ | .otherConnect | .otherCall _ _ | .otherPush _ | .copy _ => .isTrue trivial

theorem Inv.abandon (h : Inv w) (hrest : w.rest = []) (hc : w.connection = some id) :
    let w' : World := { w with
      conn := Function.update w.conn id { w.conn id with closeCallback := .details }
      connection := none
      destroyed := true }
    Base w' ∧ (w'.conn id).tcp.Open ∧ (∀ id', id' ≠ id → w.destroyed = false → ¬ (w'.conn id').tcp.Open) := by
  intro w'
  have hzero : ∀ id, closings w id = 0 := fun id => by
    unfold closings
    rw [hrest]
    rfl
  have hmade : Made w id := h.base.mentioned id (Or.inr (Or.inr (Or.inr (Or.inr (Or.inr hc)))))
  have hs := h.base.sound id hmade
  have hopen : (w.conn id).tcp.Open := by
    refine (hs.current hc).2.resolve_right fun hpos => ?_
    rw [hzero] at hpos
    exact absurd hpos (lt_irrefl 0)
  have hconn : w'.conn id = { w.conn id with closeCallback := .details } := Function.update_self _ _ _
  have hother : ∀ id', id' ≠ id → w'.conn id' = w.conn id' := fun id' hid => Function.update_of_ne hid _ _
  refine ⟨h.base.touch id rfl (fun _ => ?_) (fun id' hid => ?_) (fun hno => absurd hmade hno) (fun id' => ?_)
    (fun hne => absurd rfl hne) (fun _ => rfl), ?_, fun id' hid halive hop => ?_⟩
  · refine ⟨?_, ?_, ?_, ?_, ?_, ?_, hs.once, fun (hpos : 0 < closings w id) => ?_, ?_, hs.removing, nofun⟩
    · rw [hconn]
      exact hs.validIn
    · rw [hconn]
      exact hs.validOut
    · rw [hconn]
      exact hs.tracks
    · rw [hconn]
      exact hs.state
    · rw [hconn]
      exact hs.none
    · rw [hconn]
      exact hs.down
    · rw [hzero] at hpos
      exact absurd hpos (lt_irrefl 0)
    · rw [hconn]
      exact hs.destroying
  · refine { Apart.refl w id' with
      conn := hother id' hid, connection := iff_of_false nofun fun hc' => ?_, held := fun hpos => ?_ }
    · exact hid (Option.some.inj (hc'.symm.trans hc))
    · rw [hzero] at hpos
      exact absurd hpos (lt_irrefl 0)
  · exact { Fewer.refl w id' with connection := nofun }
  · rw [hconn]
    exact hopen
  · rw [hother id' hid] at hop
    rcases h.owned id' hop with hc' | ⟨hd, _⟩
    · exact hid (Option.some.inj (hc'.symm.trans hc))
    · cases halive.symm.trans hd

theorem forceClose_open {w : World} (hopen : (w.conn id).tcp.Open) {mem : Memory} {wr : WriteResult} :
    w.call id .forceClose mem wr = .ok ((w.setTcp id { (w.conn id).tcp with state := .kDisconnecting }).queueInLoop
      true (.conn id .forceCloseInLoop)) := by
  simp only [World.call, TcpConnection.call, TcpConnection.forceClose, if_pos hopen]

theorem Inv.destroy (h : Inv w) (hrest : w.rest = []) (halive : w.destroyed = false)
    (hsettled : Settled w .destroy) (hok : w.destroy = .ok w') : Inv w' := by
  obtain ⟨w₁, hdtor, hok⟩ := bind_eq_ok.mp hok
  obtain ⟨_, _, hok⟩ := bind_eq_ok.mp hok
  cases hok
  cases hc : w.connection with
  | none =>
      simp only [World.dtor, hc] at hdtor
      cases hdtor
      have hno : ∀ id, ¬ (w.conn id).tcp.Open := fun id hopen => by
        rcases h.owned id hopen with hc' | ⟨hd, _⟩
        · cases hc.symm.trans hc'
        · cases halive.symm.trans hd
      have hqueue := (h.base.queue true (f := .connector w.connector.stop.2) (fun _ => nofun) fun _ _ => nofun).1
      refine ⟨hqueue.apart rfl (fun id => { Apart.refl (w.queueInLoop true _) id with
          connection := ?_, held := fun _ hh => ?_ })
        (fun id => { Fewer.refl (w.queueInLoop true _) id with connection := nofun }) (fun hne => absurd rfl hne)
        fun _ => rfl, fun id hopen => absurd hopen (hno id)⟩
      · rw [show (w.queueInLoop true _).connection = none from hc]
      · refine hh.mono (fun hc' => ?_) (fun f hf _ => hf) fun ht => ht
        cases hc.symm.trans hc'
  | some id =>
      obtain ⟨hbase, hopen, hothers⟩ := h.abandon hrest hc
      have hmade : Made w id := h.base.mentioned id (Or.inr (Or.inr (Or.inr (Or.inr (Or.inr hc)))))
      let w₂ : World := { w with
        conn := Function.update w.conn id { w.conn id with closeCallback := .details }
        connection := none
        destroyed := true }
      have hdetails : (w₂.conn id).closeCallback = .details :=
        congrArg Connection.closeCallback (Function.update_self id _ w.conn)
      have habandon : w.abandon id = .ok w₁ := by simpa only [World.dtor, hc] using hdtor
      by_cases hunique : w.refs id = 1
      · -- the functor of `forceClose` holds the connection until it is closed
        let w₀ : World := { w with conn := Function.update w.conn id { w.conn id with closeCallback := .details } }
        have hcall : w₀.call id .forceClose (fun _ => 0) (.ok 0) = .ok w₁ :=
          (if_pos (decide_eq_true hunique)).symm.trans habandon
        have hopen₀ : (w₀.conn id).tcp.Open := hopen
        cases (forceClose_open hopen₀).symm.trans hcall
        have hset := hbase.setState hmade hopen (Or.inr rfl)
        have hqueue := hset.1.queue true (f := .conn id .forceCloseInLoop) (fun _ => nofun)
          fun _ _ he => by cases he; exact hmade
        refine ⟨hqueue.1, fun id' => ?_⟩
        by_cases hid : id' = id
        · subst hid
          refine fun _ => Or.inr ⟨rfl, ?_, Or.inl (Or.inl (mem_pending_queue.mpr (Or.inr rfl)))⟩
          exact (congrArg Connection.closeCallback (setTcp_conn_self w₂ id' _)).trans hdetails
        · refine hqueue.2 id' (hset.2 id' fun hop => absurd hop (hothers id' hid halive))
      · cases (if_neg (by simpa using hunique)).symm.trans habandon
        refine ⟨hbase, fun id' => ?_⟩
        by_cases hid : id' = id
        · subst hid
          exact fun _ => Or.inr ⟨rfl, hdetails, (hsettled id' hc).resolve_left hunique⟩
        · exact fun hop => absurd hop (hothers id' hid halive)

/-! ### Steps and runs -/

theorem Inv.init (retry writeComplete : Bool) : Inv (init retry writeComplete) := by
  have hno : ∀ id, ¬ Made (TcpClient.init retry writeComplete) id := fun id hm => Nat.not_le.mpr hm.1 hm.2
  refine ⟨⟨fun id hm => absurd hm (hno id), fun id _ => (new_tracks _ none).unregistered nofun, fun id hm => ?_, nofun,
    nofun⟩, fun id hopen => ?_⟩
  · rcases hm with ⟨f, hm⟩ | ⟨cb, hm⟩ | ⟨r, hm⟩ | hm | ⟨active, revents, hphase, _⟩ | hm
    · cases hm
    · cases hm
    · cases hm
    · cases hm
    · cases hphase
    · cases hm
  · rcases hopen with hs | hs <;> cases hs

/-- Other threads' functors of the connector, and functors that other threads push, move no functor of a connection. -/
theorem Inv.refiled (h : Inv w) {enableConnect : Bool} {connector : Connector} {loop : EventLoop Active Functor}
    {inflight : List Functor} (hstate : connector.state = w.connector.state) (hphase : loop.phase = w.loop.phase)
    (hmem : ∀ id f, .conn id f ∈ loop.queued ++ inflight ↔ .conn id f ∈ w.pending) :
    Inv { w with enableConnect, connector, loop, inflight } := by
  let w' : World := { w with enableConnect, connector, loop, inflight }
  suffices hkeeps : Keeps w w' from hkeeps.inv h
  refine ⟨h.base.apart rfl (fun id => ?_) (fun id => ?_) (fun hc => hstate.trans (h.base.connected hc))
    h.base.destroyed, fun id ho => ?_⟩
  · refine { Apart.refl w id with
      destroying := hmem id _
      held := fun _ hh => hh.mono (fun hc => hc) (fun f hf hholds => ?_) fun ht => ht }
    cases f with
    | connector g => cases hholds
    | conn id' g =>
        have hfiled := hmem id' g
        simp only [pending, List.mem_append] at hf hfiled ⊢
        tauto
  · exact { Fewer.refl w id with
      pending := fun f hf => Or.inl ((hmem id f).mp hf)
      active := fun active revents hphase' hx => Or.inl ⟨active, revents, hphase.symm.trans hphase', hx⟩ }
  · refine ho.apart rfl (fun hc => hc) rfl rfl fun hf => ?_
    rcases hf with hf | hf | hf
    · exact Or.inl ((hmem id _).mpr hf)
    · exact Or.inr (Or.inl ((hmem id _).mpr hf))
    · exact Or.inr (Or.inr hf)

theorem Inv.popRest (h : Inv w) {r : Rest} {rest : List (Nat × Rest)} (hrest : w.rest = (id, r) :: rest)
    (hclose : r ≠ .closeCallback) (hremove : r ≠ .remove) : Inv { w with rest } := by
  let w' : World := { w with rest }
  have hclosings : ∀ id', closings w' id' = closings w id' := fun id' => by
    have hcount : closings w' id' = rest.count (id', .closeCallback) := rfl
    have hne : (id, r) ≠ (id', .closeCallback) := fun he => hclose (Prod.mk.inj he).2
    rw [hcount, closings, hrest, List.count_cons, beq_false_of_ne hne]
    rfl
  have hremoving : ∀ id', Removing w' id' ↔ Removing w id' := fun id' => by
    unfold Removing
    rw [hrest, List.mem_cons]
    exact ⟨Or.inr, fun hr => hr.resolve_left fun he => hremove (Prod.mk.inj he).2.symm⟩
  suffices hkeeps : Keeps w w' from hkeeps.inv h
  refine ⟨h.base.apart rfl (fun id' => ?_) (fun id' => ?_) h.base.connected h.base.destroyed,
    fun id' ho => ho.apart rfl (fun hc => hc) rfl rfl fun hf => hf⟩
  · exact { Apart.refl w id' with closings := hclosings id', removing := hremoving id' }
  · refine { Fewer.refl w id' with rest := fun r' hr => Or.inl ?_ }
    rw [hrest]
    exact List.mem_cons_of_mem _ hr

theorem Base.reported (h : Base w) {revents : Events} (hrep : Reported w (.channel (.conn id) revents)) : Made w id := by
  by_contra hno
  obtain ⟨c, _, event, hevent, howner, _⟩ := hrep
  exact (h.unmade id hno).2 _ event hevent howner

theorem Inv.handleEvent (h : Inv w) (hrest : w.rest = []) (hphase : w.loop.phase.nextChannel ≠ none)
    (hok : step w .handleEvent = .ok w') : Inv w' := by
  obtain ⟨a, ha⟩ := Option.ne_none_iff_exists'.mp hphase
  obtain ⟨active, hphase⟩ := Phase.nextChannel_eq_some.mp ha
  have hactive : ∀ id active' revents, (w.loop.dispatch active).phase = .dispatching active' →
      .channel (.conn id) revents ∈ active' → Made w id := fun id active' revents hphase' hmem => by
    cases hphase'
    exact h.base.mentioned id
      (Or.inr (Or.inr (Or.inr (Or.inr (Or.inl ⟨_, revents, hphase, List.mem_cons_of_mem _ hmem⟩)))))
  have hqueued : (w.loop.dispatch active).queued = w.loop.queued := (EventLoop.queued_dispatching hphase).symm
  simp only [step, hphase] at hok
  cases a with
  | channel owner revents =>
      obtain ⟨_, _, hok⟩ := bind_eq_ok.mp hok
      cases hok
      refine h.turn hqueued (Or.inl hrest) (fun id cb hmem => Or.inr ?_) hactive
      obtain ⟨_, _, he⟩ := List.mem_map.mp hmem
      cases he
      exact h.base.mentioned id
        (Or.inr (Or.inr (Or.inr (Or.inr (Or.inl ⟨_, revents, hphase, List.mem_cons_self⟩)))))
  | timerfd =>
      obtain ⟨_, _, hok⟩ := bind_eq_ok.mp hok
      cases hok
      exact h.turn hqueued (Or.inl hrest) (fun _ _ => Or.inl) hactive
  | other =>
      cases hok
      exact h.turn hqueued (Or.inl hrest) (fun _ _ => Or.inl) hactive

theorem Inv.copied (h : Inv w) {n : Nat} (hlast : n = 0 → (w.conn id).closeCallback = .details → Closes w id) :
    Inv { w with copies := Function.update w.copies id n } := by
  let w' : World := { w with copies := Function.update w.copies id n }
  have hself : w'.copies id = n := Function.update_self _ _ _
  have hother : ∀ id', id' ≠ id → w'.copies id' = w.copies id' := fun id' hid => Function.update_of_ne hid _ _
  refine ⟨h.base.touch id rfl (fun hm => ?_) (fun id' hid => { Apart.refl w id' with copies := hother id' hid })
    (fun _ hun => hun) (fun id' => { Fewer.refl w id' with }) h.base.connected h.base.destroyed, fun id' => ?_⟩
  · have hs := h.base.sound id hm
    refine ⟨hs.validIn, hs.validOut, hs.tracks, hs.state, hs.none, hs.down, hs.once, fun hpos => ?_, hs.destroying,
      hs.removing, hs.current⟩
    obtain ⟨hdown, halive, hclient⟩ := hs.closing hpos
    refine ⟨hdown, ?_, hclient⟩
    rcases Nat.eq_zero_or_pos n with hn | hn
    · cases hcallback : (w.conn id).closeCallback with
      | client => exact Or.inl (Or.inl (hclient hcallback))
      | details =>
          rcases hlast hn hcallback with hforced | ⟨_, hzero⟩
          · exact Or.inl hforced.held
          · exact absurd hzero (Nat.ne_of_gt hpos)
    · exact Or.inr (hself.symm ▸ hn)
  · by_cases hid : id' = id
    · subst hid
      refine fun hopen => (h.owned id' hopen).imp_right fun ⟨hd, hdetails, _⟩ => ⟨hd, hdetails, ?_⟩
      rcases Nat.eq_zero_or_pos n with hn | hn
      · rcases hlast hn hdetails with hforced | ⟨hno, _⟩
        · exact Or.inl hforced
        · exact absurd hopen hno
      · exact Or.inr (hself.symm ▸ hn)
    · exact (h.owned id').apart rfl (fun hc => hc) rfl (hother id' hid) fun hf => hf

theorem Inv.step (h : Inv w) {e : Event} (hen : Enabled w e) (hsettled : Settled w e)
    (hok : step w e = .ok w') : Inv w' := by
  have hphases : ∀ id active revents, w.loop.phase = .dispatching active → .channel (.conn id) revents ∈ active →
      Made w id := fun id active revents hphase hmem =>
    h.base.mentioned id (Or.inr (Or.inr (Or.inr (Or.inr (Or.inl ⟨active, revents, hphase, hmem⟩)))))
  cases e with
  | enterLoop =>
      cases hok
      exact h.turn (EventLoop.queued_beforeLoop hen).symm (Or.inr ⟨rfl, rfl⟩) (fun _ _ => Or.inl)
        fun _ _ _ he => by cases he
  | poll active =>
      cases hok
      refine h.turn (EventLoop.queued_polling hen.1).symm (Or.inr ⟨rfl, rfl⟩) (fun _ _ => Or.inl)
        fun id active' revents hphase hmem => ?_
      cases hphase
      exact h.base.reported (hen.2.2 _ hmem)
  | handleEvent => exact h.handleEvent hen.1 hen.2.2 hok
  | handleCallback r wr err isSelfConnect =>
      obtain ⟨⟨owner, cb⟩, callbacks, hcb⟩ := List.exists_cons_of_ne_nil hen.2
      simp only [TcpClient.step, hcb] at hok
      exact h.runCallback hcb hok
  | timerCallback i a =>
      obtain ⟨t, ht⟩ : ∃ t, w.timers[i]? = some t := ⟨_, List.getElem?_eq_getElem hen.2.2.1⟩
      simp only [TcpClient.step, ht] at hok
      exact h.runTimer ht hok
  | swapFunctors =>
      cases hok
      refine h.turn ?_ (Or.inr ⟨rfl, rfl⟩) (fun _ _ => Or.inl) fun _ _ _ he => by cases he
      exact EventLoop.queued_swapFunctors.trans (EventLoop.queued_dispatching hen.2.2).symm
  | callFunctor mem wr a =>
      obtain ⟨f, hf⟩ := Option.ne_none_iff_exists'.mp hen.2
      obtain ⟨functors, hphase⟩ := Phase.nextFunctor_eq_some.mp hf
      simp only [TcpClient.step, hphase] at hok
      cases f with
      | conn id f => exact h.callConn hen.1 hphase hok
      | connector f =>
          obtain ⟨htaken, hkept⟩ := h.base.taken hen.1 hphase (by simp)
          exact Inv.runConnector ⟨htaken, fun id => hkept id (by simp) (by simp) (h.owned id)⟩ hok
  | endFunctors =>
      cases hok
      exact h.turn (EventLoop.queued_calling hen.2).symm (Or.inl hen.1) (fun _ _ => Or.inl)
        fun _ _ _ he => by cases he
  | userCode a =>
      obtain ⟨⟨id, r⟩, rest, hrest⟩ := List.exists_cons_of_ne_nil hen
      simp only [TcpClient.step, hrest] at hok
      cases r with
      | closeCallback => exact h.close hrest hok
      | remove => exact Keeps.inv (h.base.removed hrest hok) h
      | _ =>
          cases hok
          exact h.popRest hrest (by simp) (by simp)
  | connect a =>
      have hstart : Inv { w with enableConnect := true, connector := w.connector.start.1 } :=
        h.refiled rfl rfl fun _ _ => Iff.rfl
      exact hstart.startInLoop hok
  | disconnect =>
      have hoff : Inv { w with enableConnect := false } :=
        h.refiled rfl rfl fun _ _ => Iff.rfl
      simp only [TcpClient.step, World.disconnect] at hok
      split at hok
      · next id hc =>
        have hmade : Made w id := h.base.mentioned id (Or.inr (Or.inr (Or.inr (Or.inr (Or.inr hc)))))
        exact Keeps.inv (hoff.base.call hmade hok) hoff
      · cases hok
        exact hoff
  | enableRetry =>
      cases hok
      exact ⟨h.base.apart rfl (fun id => { Apart.refl w id with }) (fun id => { Fewer.refl w id with }) h.base.connected
        h.base.destroyed, h.owned⟩
  | call id k mem wr => exact Keeps.inv (h.base.call hen.1 hok) h
  | retrieve id len => exact Keeps.inv (h.base.retrieve hen.1 hen.2.2.2 hok) h
  | destroy => exact h.destroy hen.2.1 hen.1 hsettled hok
  | otherConnect =>
      cases hok
      refine h.refiled rfl rfl fun id f => ?_
      simp [pending]
  | otherCall id k => exact Keeps.inv (h.base.otherCall hen.1 hok) h
  | otherPush i =>
      obtain ⟨f, hf⟩ : ∃ f, w.inflight[i]? = some f := ⟨_, List.getElem?_eq_getElem hen⟩
      obtain ⟨hi, hget⟩ := List.getElem?_eq_some_iff.mp hf
      have hperm : (f :: w.inflight.eraseIdx i).Perm w.inflight := by
        rw [← hget]
        exact List.getElem_cons_eraseIdx_perm hi
      simp only [TcpClient.step, hf] at hok
      cases hok
      refine h.refiled rfl EventLoop.queueInLoop_phase fun id g => ?_
      simp only [pending, queueInLoop, EventLoop.queued_queueInLoop, List.append_assoc, List.singleton_append]
      exact (hperm.append_left _).mem_iff
  | copy id =>
      cases hok
      exact h.copied fun hn => by cases hn
  | drop id =>
      cases hok
      have hpos : 0 < w.copies id := hen
      exact h.copied fun hn hdetails => hsettled hdetails (by omega)

/-- Every established connection whose last reference the step drops is closed, and the poller does not know its
channel. -/
def DiesClosed (w : World) (_ : Event) (w' : World) : Prop := ∀ id, Made w' id → 0 < w.refs id → w'.refs id = 0 →
  (w'.conn id).tcp.state = .kDisconnected ∧ w'.poller.Unregistered (.conn id)

/-- A connection without references is closed, and the poller does not know its channel. -/
theorem Inv.released (h : Inv w) (hmade : Made w id) (hrefs : w.refs id = 0) :
    (w.conn id).tcp.state = .kDisconnected ∧ w.poller.Unregistered (.conn id) := by
  have hno : ¬ Alive w id := fun halive => Nat.ne_of_gt halive.refs hrefs
  have hs := h.base.sound id hmade
  have hdown : (w.conn id).tcp.state = .kDisconnected :=
    hs.state.resolve_left fun hopen => hno ((h.owned id).alive hopen)
  refine ⟨hdown, hs.tracks.unregistered fun c hc => ?_⟩
  cases hc
  rcases hs.down hdown with hpos | hd | hr | hstatus
  · exact absurd (hs.closing hpos).2.1 hno
  · exact absurd (Or.inl (.of_pending hd rfl)) hno
  · exact absurd (Or.inl (.of_called (hs.removing hr) rfl)) hno
  · exact hstatus

end TcpClient

end OulaServer
