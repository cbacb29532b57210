import OulaServer.TcpClient.References

/-!
# What the functions of a client keep

Each function of the connector and each function of a connection keeps what `OulaServer.TcpClient.References` says
of the client's connections, and leaves the open ones with their owner: `Base.connector` and `Base.newConnection`,
`Base.closed`, `Base.destroying` and `Base.removed`, and the calls.
-/

namespace OulaServer

namespace TcpClient

open Run TcpConnection EpollPoller World

variable {w w' w'' : World} {id : Nat} {o : Outcome}

theorem Apart.trans (h : Apart w w' id) (h' : Apart w' w'' id) : Apart w w'' id where
  conn := h'.conn.trans h.conn
  tracks o ho := h'.tracks o (h.tracks o ho)
  connection := h'.connection.trans h.connection
  destroying := h'.destroying.trans h.destroying
  closings := h'.closings.trans h.closings
  removing := h'.removing.trans h.removing
  called hr hc := h'.called (h.removing.mpr hr) (h.called hr hc)
  held hpos hh := h'.held (h.closings ▸ hpos) (h.held hpos hh)
  copies := h'.copies.trans h.copies

theorem Base.absent (h : Base w) (hno : ¬ Made w id) : closings w id = 0 ∧ ¬ Destroying w id ∧ ¬ Removing w id := by
  refine ⟨List.count_eq_zero.mpr fun hmem => hno ?_, fun hd => hno ?_, fun hr => hno ?_⟩
  · exact h.mentioned id (Or.inr (Or.inr (Or.inl ⟨_, hmem⟩)))
  · exact h.mentioned id (Or.inl ⟨_, hd⟩)
  · exact h.mentioned id (Or.inr (Or.inr (Or.inl ⟨_, hr⟩)))

/-! ### Functions of the connector -/

theorem mem_queuedBy {effects : List Connector.Effect} {f : Functor} (h : f ∈ queuedBy effects) :
    ∃ g, f = .connector g := by
  obtain ⟨e, _, he⟩ := List.mem_filterMap.mp h
  cases e <;> cases he
  exact ⟨_, rfl⟩

theorem mem_timersBy {effects : List Connector.Effect} {t : Timer} (h : t ∈ timersBy effects) : t = .startInLoop := by
  obtain ⟨e, _, he⟩ := List.mem_filterMap.mp h
  cases e <;> cases he
  rfl

theorem Base.connector (h : Base w) {o : Connector.Outcome} (hnew : Connector.MakesNone o.effects)
    (hstate : w.connection ≠ none → o.connector.state = .kConnected) (hok : w.finishConnector o = .ok w') :
    Keeps w w' := by
  obtain ⟨channel, loop, poller, timers, sockets, rfl, hruns⟩ := finishConnector_ok hnew hok
  let w' : World := { w with connector := { o.connector with channel }, loop, poller, timers, sockets }
  have hpending : ∀ id f, .conn id f ∈ w'.pending ↔ .conn id f ∈ w.pending := by
    intro id f
    change _ ∈ loop.queued ++ w.inflight ↔ _ ∈ w.loop.queued ++ w.inflight
    have hnot : .conn id f ∉ queuedBy o.effects := fun hmem => by
      obtain ⟨g, hg⟩ := mem_queuedBy hmem
      cases hg
    rw [hruns.queued]
    simp only [List.mem_append, hnot, or_false]
  have htimers : ∀ id, .forceCloseInLoop id ∈ timers ↔ .forceCloseInLoop id ∈ w.timers := by
    intro id
    have hnot : .forceCloseInLoop id ∉ timersBy o.effects := fun hmem => by cases mem_timersBy hmem
    rw [hruns.timers]
    simp only [List.mem_append, hnot, or_false]
  have hheld : ∀ id, Held w id → Held w' id := by
    intro id hh
    refine hh.mono (fun hc => hc) (fun f hf _ => ?_) fun ht => ?_
    · change f ∈ loop.queued ++ w.called ++ w.inflight
      rw [hruns.queued]
      simp only [List.mem_append] at hf ⊢
      tauto
    · exact (List.mem_append.mp ht).elim (fun ht => List.mem_append_left _ ((htimers id).mpr ht))
        (List.mem_append_right _)
  change Keeps w w'
  refine ⟨h.apart rfl (fun id => ?_) (fun id => ?_) hstate h.destroyed, fun id ho => ?_⟩
  · exact { Apart.refl w id with tracks := hruns.conns id, destroying := hpending id _, held := fun _ => hheld id }
  · exact { Fewer.refl w id with
      pending := fun f hf => Or.inl ((hpending id f).mp hf)
      timers := fun ht => Or.inl ((htimers id).mp ht)
      active := fun active revents hphase hmem => Or.inl ⟨active, revents, hruns.phase.symm.trans hphase, hmem⟩ }
  · refine ho.apart rfl (fun hc => hc) rfl rfl fun hf => ?_
    rcases hf with hf | hf | hf
    · exact Or.inl ((hpending id _).mpr hf)
    · exact Or.inr (Or.inl ((hpending id _).mpr hf))
    · exact Or.inr (Or.inr ((htimers id).mpr hf))

theorem Base.newConnection (h : Base w) (hnone : w.connection = none) (hstate : w.connector.state = .kConnected)
    {sockfd : Int} (hok : w.newConnection sockfd = .ok w') : Keeps w w' := by
  obtain ⟨halive, channel, loop, poller, timers, rfl, hacts⟩ := newConnection_ok hok
  have hno : ¬ Made w (w.nextConnId + 1) := fun hm => by
    have hle := hm.2
    omega
  obtain ⟨hclosings, hdestroying, hremoving⟩ := h.absent hno
  have hold : ∀ id, id ≠ w.nextConnId + 1 → Apart w (w.made sockfd) id := by
    intro id hid
    refine { Apart.refl w id with conn := Function.update_of_ne hid _ _, connection := ?_, held := fun _ hh => ?_ }
    · rw [hnone]
      exact iff_of_false (fun hc => hid (Option.some.inj hc).symm) nofun
    · refine hh.mono (fun hc => ?_) (fun _ hf _ => hf) fun ht => ht
      rw [hnone] at hc
      cases hc
  have happart : ∀ id, id ≠ w.nextConnId + 1 → Apart w ((w.made sockfd).acted (w.nextConnId + 1)
      { established sockfd w.writeCompleteCallback with channel } loop poller timers [.connectionUp]) id :=
    fun id hid => (hold id hid).trans (hacts.apart hid)
  refine ⟨⟨fun id hm => ?_, fun id hm => ?_, fun id hm => ?_, fun _ => hstate, fun hd => ?_⟩, fun id ho => ?_⟩
  · by_cases hid : id = w.nextConnId + 1
    · subst hid
      have hself : ((w.made sockfd).acted (w.nextConnId + 1)
          { established sockfd w.writeCompleteCallback with channel } loop poller timers [.connectionUp]).conn
            (w.nextConnId + 1) =
          { (w.made sockfd).conn (w.nextConnId + 1) with
            tcp := { established sockfd w.writeCompleteCallback with channel } } := acted_conn_self
      have hcl : TcpClient.closings ((w.made sockfd).acted (w.nextConnId + 1)
          { established sockfd w.writeCompleteCallback with channel } loop poller timers [.connectionUp])
          (w.nextConnId + 1) = 0 := by
        rw [closings_acted, if_pos rfl]
        exact (Nat.zero_add _).trans hclosings
      refine ⟨?_, ?_, ?_, ?_, ?_, ?_, ?_, ?_, ?_, ?_, ?_⟩
      · rw [hself]
        exact Buffer.new_valid (by decide)
      · rw [hself]
        exact Buffer.new_valid (by decide)
      · rw [hself]
        exact hacts.tracks ((h.unmade _ hno).tracks _)
      · rw [hself]
        exact Or.inl (Or.inl rfl)
      · rw [hself]
        exact nofun
      · rw [hself]
        exact nofun
      · rw [hcl]
        exact Nat.zero_le _
      · rw [hcl]
        exact fun hpos => absurd hpos (lt_irrefl 0)
      · intro hd
        rcases hacts.mem_pending.mp hd with hd | ⟨g, hg, _⟩
        · exact absurd hd hdestroying
        · cases hg
      · intro hr
        rcases mem_acted_rest.mp hr with ⟨_, hr⟩ | hr
        · simp at hr
        · exact absurd hr hremoving
      · rw [hself]
        refine fun _ => ⟨?_, Or.inl (Or.inl rfl)⟩
        exact congrArg Connection.closeCallback (Function.update_self (w.nextConnId + 1) _ w.conn)
    · have hm' : Made w id := ⟨hm.1, Nat.lt_succ_iff.mp (lt_of_le_of_ne hm.2 hid)⟩
      exact (h.sound id hm').apart (happart id hid)
  · have hid : id ≠ w.nextConnId + 1 := by
      rintro rfl
      exact hm ⟨Nat.succ_pos _, Nat.le_refl _⟩
    have hm' : ¬ Made w id := fun hm' => hm ⟨hm'.1, Nat.le_succ_of_le hm'.2⟩
    exact ((happart id hid).tracks none ((h.unmade id hm').tracks none)).unregistered nofun
  · by_cases hid : id = w.nextConnId + 1
    · subst hid
      exact ⟨Nat.succ_pos _, Nat.le_refl _⟩
    · have hm' : Made w id := by
        rcases hm with ⟨f, hm⟩ | ⟨cb, hm⟩ | ⟨r, hm⟩ | hm | ⟨active, revents, hphase, hm⟩ | hm
        · rcases hacts.mem_pending.mp hm with hm | ⟨g, hg, _⟩
          · exact h.mentioned id (Or.inl ⟨f, hm⟩)
          · cases hg
        · exact h.mentioned id (Or.inr (Or.inl ⟨cb, hm⟩))
        · rcases mem_acted_rest.mp hm with ⟨heq, _⟩ | hm
          · exact absurd heq hid
          · exact h.mentioned id (Or.inr (Or.inr (Or.inl ⟨r, hm⟩)))
        · change _ ∈ timers at hm
          rw [hacts.timers] at hm
          rcases List.mem_append.mp hm with hm | hm
          · exact h.mentioned id (Or.inr (Or.inr (Or.inr (Or.inl hm))))
          · cases hm
        · exact h.mentioned id (Or.inr (Or.inr (Or.inr (Or.inr (Or.inl
            ⟨active, revents, hacts.phase.symm.trans hphase, hm⟩)))))
        · exact absurd (Option.some.inj hm).symm hid
      exact ⟨hm'.1, Nat.le_succ_of_le hm'.2⟩
  · cases halive.symm.trans hd
  · by_cases hid : id = w.nextConnId + 1
    · subst hid
      exact fun _ => Or.inl rfl
    · intro hopen
      rw [(happart id hid).conn] at hopen
      rcases ho hopen with hc | ⟨hd, _⟩
      · rw [hnone] at hc
        cases hc
      · cases halive.symm.trans hd

/-! ### Closing and destroying a connection -/

theorem setTcp_apart {tcp : TcpConnection} {id' : Nat} (hne : id' ≠ id) : Apart w (w.setTcp id tcp) id' :=
  { Apart.refl w id' with conn := Function.update_of_ne hne _ _ }

theorem mem_pending_queue {b : Bool} {f g : Functor} : g ∈ (w.queueInLoop b f).pending ↔ g ∈ w.pending ∨ g = f := by
  unfold pending
  simp only [queueInLoop, EventLoop.queued_queueInLoop, List.mem_append, List.mem_singleton]
  tauto

theorem Held.queue (h : Held w id) (b : Bool) (f : Functor) : Held (w.queueInLoop b f) id := by
  refine h.mono (fun hc => hc) (fun g hg _ => ?_) fun ht => ht
  simp only [queueInLoop, EventLoop.queued_queueInLoop, List.mem_append] at hg ⊢
  tauto

theorem Forced.queue (h : Forced w id) (b : Bool) (f : Functor) : Forced (w.queueInLoop b f) id := by
  rcases h with h | h | h
  · exact Or.inl (mem_pending_queue.mpr (Or.inl h))
  · exact Or.inr (Or.inl (mem_pending_queue.mpr (Or.inl h)))
  · exact Or.inr (Or.inr h)

theorem Base.queue (h : Base w) (b : Bool) {f : Functor} (hf : ∀ id, f ≠ .conn id .connectDestoryed)
    (hmade : ∀ id g, f = .conn id g → Made w id) : 
    Keeps w (w.queueInLoop b f) := by
  refine ⟨h.apart rfl (fun id => ?_) (fun id => ?_) h.connected h.destroyed, fun id ho => ?_⟩
  · refine { Apart.refl w id with destroying := ?_, held := fun _ hh => hh.queue b f }
    exact mem_pending_queue.trans ⟨fun hd => hd.resolve_right fun he => hf id he.symm, Or.inl⟩
  · refine { Fewer.refl w id with pending := fun g hg => ?_, active := fun active revents hphase hmem => ?_ }
    · exact (mem_pending_queue.mp hg).imp_right fun he => hmade id g he.symm
    · exact Or.inl ⟨active, revents, EventLoop.queueInLoop_phase.symm.trans hphase, hmem⟩
  · exact ho.apart rfl (fun hc => hc) rfl rfl fun hfo => hfo.queue b f

/-- The close callback ran: the client lets go of the connection, or did not hold it, and `ConnectDestoryed` is
queued. -/
theorem Base.closed (h : Base w) {rest : List (Nat × Rest)} (hrest : w.rest = (id, .closeCallback) :: rest)
    {connection : Option Nat}
    (hconnection : w.connection = some id ∧ connection = none ∨ w.connection ≠ some id ∧ connection = w.connection) :
    let w' := { w with rest, connection }.queueInLoop true (.conn id .connectDestoryed)
    Keeps w w' := by
  intro w'
  have hmem : (id, .closeCallback) ∈ w.rest := by
    rw [hrest]
    exact List.mem_cons_self
  have hmade : Made w id := h.mentioned id (Or.inr (Or.inr (Or.inl ⟨_, hmem⟩)))
  have hs := h.sound id hmade
  have hclosings : ∀ id', closings w id' = closings w' id' + if id' = id then 1 else 0 := by
    intro id'
    have hcount : closings w' id' = rest.count (id', .closeCallback) := rfl
    rw [hcount]
    unfold closings
    rw [hrest, List.count_cons]
    by_cases hid : id' = id
    · simp [hid]
    · simp [hid, Ne.symm hid]
  have hpos : 0 < closings w id := List.count_pos_iff.mpr hmem
  have hzero : closings w' id = 0 := by
    have hsum := hclosings id
    have honce := hs.once
    rw [if_pos rfl] at hsum
    omega
  obtain ⟨hdown, _, _⟩ := hs.closing hpos
  have hne : connection ≠ some id := by
    rcases hconnection with ⟨_, hc⟩ | ⟨hc, hcc⟩
    · rw [hc]
      nofun
    · rwa [hcc]
  have hother : ∀ id', id' ≠ id → (connection = some id' ↔ w.connection = some id') := by
    intro id' hid
    rcases hconnection with ⟨hc, hcc⟩ | ⟨_, hcc⟩
    · rw [hc, hcc]
      exact iff_of_false nofun fun he => hid (Option.some.inj he).symm
    · rw [hcc]
  have hremoving : ∀ id', Removing w' id' ↔ Removing w id' := by
    intro id'
    change (id', .remove) ∈ rest ↔ _ ∈ w.rest
    rw [hrest, List.mem_cons]
    simp
  have hsub : ∀ p ∈ rest, p ∈ w.rest := fun p hp => by
    rw [hrest]
    exact List.mem_cons_of_mem _ hp
  refine ⟨h.touch id rfl (fun _ => ?_) (fun id' hid => ?_) (fun hno => absurd hmade hno) (fun id' => ?_)
    (fun hc => h.connected ?_) (fun hd => ?_), fun id' ho => ?_⟩
  · refine ⟨hs.validIn, hs.validOut, hs.tracks, hs.state, hs.none, fun _ => Or.inr (Or.inl ?_), ?_, ?_, fun _ => hdown,
      fun hr => hs.removing ((hremoving id).mp hr), fun hc => absurd hc hne⟩
    · exact mem_pending_queue.mpr (Or.inr rfl)
    · rw [hzero]
      exact Nat.zero_le _
    · rw [hzero]
      exact fun hp => absurd hp (lt_irrefl 0)
  · refine { Apart.refl w id' with
        connection := hother id' hid, destroying := ?_, closings := ?_, removing := hremoving id',
        held := fun _ hh => ?_ }
    · refine mem_pending_queue.trans ⟨fun hd => hd.resolve_right fun he => ?_, Or.inl⟩
      cases he
      exact hid rfl
    · rw [hclosings id', if_neg hid, Nat.add_zero]
    · have hh' : Held { w with rest, connection } id' :=
        hh.mono (fun hc => (hother id' hid).mpr hc) (fun _ hf _ => hf) fun ht => ht
      exact hh'.queue true _
  · refine { Fewer.refl w id' with
        pending := fun f hf => ?_, rest := fun r hr => Or.inl (hsub _ hr),
        active := fun active revents hphase hmem => ?_, connection := fun hc => ?_ }
    · refine (mem_pending_queue.mp hf).imp_right fun he => ?_
      cases he
      exact hmade
    · exact Or.inl ⟨active, revents, EventLoop.queueInLoop_phase.symm.trans hphase, hmem⟩
    · by_cases hid : id' = id
      · exact Or.inr (hid ▸ hmade)
      · exact Or.inl ((hother id' hid).mp hc)
  · intro hnone
    change connection ≠ none at hc
    rcases hconnection with ⟨_, hcc⟩ | ⟨_, hcc⟩
    · exact hc hcc
    · exact hc (hcc.trans hnone)
  · change connection = none
    rcases hconnection with ⟨_, hcc⟩ | ⟨_, hcc⟩
    · exact hcc
    · rw [hcc]
      exact h.destroyed hd
  · by_cases hid : id' = id
    · subst hid
      exact fun hopen => absurd hopen (not_open_of_down hdown)
    · refine ho.apart rfl (fun hc => (hother id' hid).mpr hc) rfl rfl fun hf => ?_
      have hf' : Forced { w with rest, connection } id' := hf
      exact hf'.queue true _

/-- `ConnectDestoryed` was called: what is left of it is `Channel::remove`. -/
theorem Base.destroying (h : Base w) (hrest : w.rest = []) {functors : List Functor}
    (hphase : w.loop.phase = .calling (.conn id .connectDestoryed :: functors)) {mem : Memory} {wr : WriteResult}
    (hok : World.runConn { w with
      loop := w.loop.callRest functors
      called := w.called ++ [.conn id .connectDestoryed] } id mem wr .connectDestoryed = .ok w') :
    Keeps w w' := by
  have hpending : w.pending = .conn id .connectDestoryed :: (functors ++ w.loop.pendingFunctors ++ w.inflight) := by
    unfold pending
    rw [EventLoop.queued_calling hphase]
    rfl
  have hdestroying : Destroying w id := by
    unfold Destroying
    rw [hpending]
    exact List.mem_cons_self
  have hmade : Made w id := h.mentioned id (Or.inl ⟨_, hdestroying⟩)
  have hs := h.sound id hmade
  have hdown := hs.destroying hdestroying
  obtain ⟨o, ho, hok⟩ := bind_eq_ok.mp hok
  have hne : (w.conn id).tcp.state ≠ .kConnected := by
    rw [hdown]
    nofun
  cases (connectDestoryed_keep hne).symm.trans ho
  cases hok
  rw [setTcp_self]
  let w' : World := { w with
    loop := w.loop.callRest functors
    called := w.called ++ [.conn id .connectDestoryed]
    rest := [(id, .remove)] ++ w.rest }
  change Keeps w w'
  have hzero : ∀ id', closings w id' = 0 := fun id' => by
    unfold closings
    rw [hrest]
    rfl
  have hclosings : ∀ id', closings w' id' = closings w id' := fun id' => by
    have hcount : closings w' id' = List.count (id', .closeCallback) ((id, Rest.remove) :: w.rest) := rfl
    rw [hcount, List.count_cons]
    simp [closings]
  have hsub : ∀ f, f ∈ w'.pending → f ∈ w.pending := fun f hf => by
    rw [hpending]
    exact List.mem_cons_of_mem _ hf
  have hback : ∀ f, f ≠ .conn id .connectDestoryed → f ∈ w.pending → f ∈ w'.pending := fun f hne hf => by
    rw [hpending] at hf
    exact (List.mem_cons.mp hf).resolve_left hne
  refine ⟨h.touch id rfl (fun _ => ?_) (fun id' hid => ?_) (fun hno => absurd hmade hno) (fun id' => ?_)
    h.connected h.destroyed, fun id' ho => ?_⟩
  · refine ⟨hs.validIn, hs.validOut, hs.tracks, hs.state, hs.none,
      fun _ => Or.inr (Or.inr (Or.inl List.mem_cons_self)), ?_, ?_, fun _ => hdown,
      fun _ => List.mem_append_right _ List.mem_cons_self, fun hc => ?_⟩
    · rw [hclosings, hzero]
      exact Nat.zero_le _
    · rw [hclosings, hzero]
      exact fun hp => absurd hp (lt_irrefl 0)
    · rw [hclosings]
      exact hs.current hc
  · refine { Apart.refl w id' with
        closings := hclosings id', destroying := ⟨hsub _, hback _ fun he => ?_⟩, removing := ?_,
        called := fun _ hc => List.mem_append_left _ hc, held := fun hp => ?_ }
    · cases he
      exact hid rfl
    · change (id', Rest.remove) ∈ (id, Rest.remove) :: w.rest ↔ _ ∈ w.rest
      rw [List.mem_cons]
      refine ⟨fun hr => hr.resolve_left fun he => ?_, Or.inr⟩
      cases he
      exact hid rfl
    · rw [hzero] at hp
      exact absurd hp (lt_irrefl 0)
  · refine { Fewer.refl w id' with pending := fun f hf => Or.inl (hsub _ hf), rest := fun r hr => ?_, active := nofun }
    rcases List.mem_cons.mp hr with he | hr
    · cases he
      exact Or.inr hmade
    · exact Or.inl hr
  · refine ho.apart rfl (fun hc => hc) rfl rfl fun hf => ?_
    rcases hf with hf | hf | hf
    · exact Or.inl (hback _ nofun hf)
    · exact Or.inr (Or.inl (hback _ nofun hf))
    · exact Or.inr (Or.inr hf)

theorem Base.removed (h : Base w) {rest : List (Nat × Rest)} (hrest : w.rest = (id, .remove) :: rest)
    {a : Connector.Connect} (hok : World.runRest { w with rest } id a .remove = .ok w') :
    Keeps w w' := by
  have hmem : (id, .remove) ∈ w.rest := by
    rw [hrest]
    exact List.mem_cons_self
  have hmade : Made w id := h.mentioned id (Or.inr (Or.inr (Or.inl ⟨_, hmem⟩)))
  have hs := h.sound id hmade
  obtain ⟨⟨p, c⟩, hremove, hok⟩ := bind_eq_ok.mp hok
  cases hok
  have hrem := removeChannel_removed hremove
  obtain rfl := hrem.channel
  let w₁ : World := { w with rest, poller := p }
  let w' : World := w₁.setTcp id { (w.conn id).tcp with
    channel := { (w.conn id).tcp.channel with inPollerStatus := .kInit } }
  change Keeps w w'
  have hclosings : ∀ id', closings w' id' = closings w id' := fun id' => by
    have hcount : closings w' id' = rest.count (id', .closeCallback) := rfl
    rw [hcount]
    unfold closings
    rw [hrest, List.count_cons]
    simp
  have hsub : ∀ p ∈ rest, p ∈ w.rest := fun p hp => by
    rw [hrest]
    exact List.mem_cons_of_mem _ hp
  have hconn : w'.conn id = { w.conn id with tcp := { (w.conn id).tcp with
      channel := { (w.conn id).tcp.channel with inPollerStatus := .kInit } } } := setTcp_conn_self w₁ id _
  refine ⟨h.touch id rfl (fun _ => ?_) (fun id' hid => ?_) (fun hno => absurd hmade hno) (fun id' => ?_)
    h.connected h.destroyed, fun id' ho => ?_⟩
  · refine ⟨?_, ?_, ?_, ?_, ?_, ?_, ?_, ?_, ?_, fun hr => hs.removing (hsub _ hr), ?_⟩
    · rw [hconn]
      exact hs.validIn
    · rw [hconn]
      exact hs.validOut
    · exact (hs.tracks.remove hrem).tracks _
    · rw [hconn]
      exact hs.state
    · rw [hconn]
      exact hs.none
    · rw [hconn]
      exact fun _ => Or.inr (Or.inr (Or.inr rfl))
    · rw [hclosings]
      exact hs.once
    · rw [hconn, hclosings]
      exact hs.closing
    · rw [hconn]
      exact hs.destroying
    · rw [hconn, hclosings]
      exact hs.current
  · refine { Apart.refl w id' with
        conn := Function.update_of_ne hid _ _, tracks := fun o ho => ho.of_removed hrem, closings := hclosings id',
        removing := ?_ }
    change (id', .remove) ∈ rest ↔ _ ∈ w.rest
    rw [hrest, List.mem_cons]
    refine ⟨Or.inr, fun hr => hr.resolve_left fun he => ?_⟩
    cases he
    exact hid rfl
  · exact { Fewer.refl w id' with rest := fun r hr => Or.inl (hsub _ hr) }
  · by_cases hid : id' = id
    · subst hid
      intro hopen
      rw [hconn] at hopen ⊢
      exact ho hopen
    · exact ho.apart (Function.update_of_ne hid _ _) (fun hc => hc) rfl rfl fun hf => hf

/-! ### Calls -/

theorem Keeps.trans (h : Keeps w w') (h' : Keeps w' w'') : Keeps w w'' := ⟨h'.1, fun id ho => h'.2 id (h.2 id ho)⟩

theorem Base.runConn (h : Base w) (hmade : Made w id) {mem : Memory} {wr : WriteResult} {f : ConnFunctor}
    (hf : ¬ f.IsLifecycle) (hok : w.runConn id mem wr f = .ok w') : Keeps w w' := by
  obtain ⟨o, ho, hok⟩ := bind_eq_ok.mp hok
  have hs := h.sound id hmade
  obtain ⟨o', ho', hquiet⟩ := runFunctor_quiet mem wr hs.validOut hf
  cases ho'.symm.trans ho
  exact h.calm hmade (.of_quiet hs.validIn hquiet) hok

theorem Base.setState (h : Base w) (hmade : Made w id) (hopen : (w.conn id).tcp.Open) {state : StateE}
    (hstate : state = (w.conn id).tcp.state ∨ state = .kDisconnecting) :
    Keeps w (w.setTcp id { (w.conn id).tcp with state }) := by
  have hs := h.sound id hmade
  have hopen' : { (w.conn id).tcp with state }.Open := by
    rcases hstate with rfl | rfl
    · exact hopen
    · exact Or.inr rfl
  have hzero := hs.closings_open hopen
  let w' := w.setTcp id { (w.conn id).tcp with state }
  have hconn : w'.conn id = { w.conn id with tcp := { (w.conn id).tcp with state } } := setTcp_conn_self w id _
  have hclosings : closings w' id = 0 := hzero
  change Keeps w w'
  refine ⟨h.touch id rfl (fun _ => ?_) (fun id' hid => setTcp_apart hid)
    (fun hno => absurd hmade hno) (fun id' => { Fewer.refl w id' with }) h.connected h.destroyed, fun id' ho => ?_⟩
  · refine ⟨?_, ?_, ?_, ?_, ?_, ?_, ?_, ?_, fun hd => ?_, hs.removing, fun hc => ?_⟩
    · rw [hconn]
      exact hs.validIn
    · rw [hconn]
      exact hs.validOut
    · rw [hconn]
      exact hs.tracks
    · rw [hconn]
      exact Or.inl hopen'
    · rw [hconn]
      exact fun hdown => absurd hopen' (not_open_of_down hdown)
    · rw [hconn]
      exact fun hdown => absurd hopen' (not_open_of_down hdown)
    · rw [hclosings]
      exact Nat.zero_le _
    · rw [hclosings]
      exact fun hp => absurd hp (lt_irrefl 0)
    · exact absurd hopen (not_open_of_down (hs.destroying hd))
    · rw [hconn]
      exact ⟨(hs.current hc).1, Or.inl hopen'⟩
  · by_cases hid : id' = id
    · subst hid
      intro _
      rw [hconn]
      exact ho hopen
    · exact ho.apart (Function.update_of_ne hid _ _) (fun hc => hc) rfl rfl fun hf => hf

theorem Base.call (h : Base w) (hmade : Made w id) {k : TcpConnection.Call} {mem : Memory} {wr : WriteResult}
    (hok : w.call id k mem wr = .ok w') : Keeps w w' := by
  rcases call_cases (w.conn id).tcp k with hcall | ⟨hopen, state, t, hstate, hcall, ht⟩
  · simp only [World.call, hcall, setTcp_self] at hok
    cases hok
    exact ⟨h, fun _ ho => ho⟩
  · have hset := h.setState hmade hopen hstate
    rcases ht with rfl | ⟨f, rfl, hf⟩
    · simp only [World.call, hcall] at hok
      cases hok
      exact hset.trans (hset.1.queue true (fun _ => nofun) fun _ _ he => by cases he; exact hmade)
    · simp only [World.call, hcall] at hok
      exact hset.trans (hset.1.runConn hmade hf hok)

theorem Base.fly (h : Base w) (hmade : Made w id) {f : ConnFunctor} (hf : f ≠ .connectDestoryed) :
    Keeps w { w with inflight := w.inflight ++ [.conn id f] } := by
  have hpending : ∀ g, g ∈ w.loop.queued ++ (w.inflight ++ [.conn id f]) ↔ g ∈ w.pending ∨ g = .conn id f :=
    fun g => by rw [← List.append_assoc, List.mem_append, List.mem_singleton]; rfl
  refine ⟨h.apart rfl (fun id' => ?_) (fun id' => ?_) h.connected h.destroyed, fun id' ho => ?_⟩
  · refine { Apart.refl w id' with destroying := ?_, held := fun _ hh => ?_ }
    · refine (hpending _).trans ⟨fun hd => hd.resolve_right fun he => ?_, Or.inl⟩
      exact hf (Functor.conn.inj he).2.symm
    · refine hh.mono (fun hc => hc) (fun g hg _ => ?_) fun ht => ht
      rw [← List.append_assoc]
      exact List.mem_append_left _ hg
  · refine { Fewer.refl w id' with pending := fun g hg => ((hpending _).mp hg).imp_right fun he => ?_ }
    obtain rfl := (Functor.conn.inj he).1
    exact hmade
  · refine ho.apart rfl (fun hc => hc) rfl rfl fun hf => ?_
    rcases hf with hf | hf | hf
    · exact Or.inl ((hpending _).mpr (Or.inl hf))
    · exact Or.inr (Or.inl ((hpending _).mpr (Or.inl hf)))
    · exact Or.inr (Or.inr hf)

theorem Base.otherCall (h : Base w) (hmade : Made w id) {k : TcpConnection.Call}
    (hok : TcpClient.step w (.otherCall id k) = .ok w') : Keeps w w' := by
  rcases call_cases (w.conn id).tcp k with hcall | ⟨hopen, state, t, hstate, hcall, ht⟩
  · simp only [TcpClient.step, hcall, setTcp_self] at hok
    cases hok
    exact ⟨h, fun _ ho => ho⟩
  · have hset := h.setState hmade hopen hstate
    simp only [TcpClient.step, hcall] at hok
    cases hok
    have hfunctor : t.functor ≠ .connectDestoryed := by
      rcases ht with rfl | ⟨f, rfl, hf⟩
      · nofun
      · rintro rfl
        exact hf trivial
    exact hset.trans (hset.1.fly hmade hfunctor)

theorem Base.retrieve (h : Base w) (hmade : Made w id) {len : Nat}
    (hlen : len ≤ (w.conn id).tcp.inputBuffer.readableBytes) (hok : TcpClient.step w (.retrieve id len) = .ok w') :
    Keeps w w' := by
  have hs := h.sound id hmade
  obtain ⟨b, hb, hvalid, _⟩ := Buffer.retrieve_spec hs.validIn hlen
  obtain ⟨b', hb', hok⟩ := bind_eq_ok.mp hok
  cases hb.symm.trans hb'
  cases hok
  let w' := w.setTcp id { (w.conn id).tcp with inputBuffer := b }
  have hconn : w'.conn id = { w.conn id with tcp := { (w.conn id).tcp with inputBuffer := b } } :=
    setTcp_conn_self w id _
  change Keeps w w'
  refine ⟨h.touch id rfl (fun _ => ?_) (fun id' hid => setTcp_apart hid)
    (fun hno => absurd hmade hno) (fun id' => { Fewer.refl w id' with }) h.connected h.destroyed, fun id' ho => ?_⟩
  · refine ⟨?_, ?_, ?_, ?_, ?_, ?_, hs.once, ?_, ?_, hs.removing, ?_⟩
    · rw [hconn]
      exact hvalid
    · rw [hconn]
      exact hs.validOut
    · rw [hconn]
      exact hs.tracks
    · rw [hconn]
      exact hs.state
    · rw [hconn]
      exact hs.none
    · rw [hconn]
      exact hs.down
    · rw [hconn]
      exact hs.closing
    · rw [hconn]
      exact hs.destroying
    · rw [hconn]
      exact hs.current
  · by_cases hid : id' = id
    · subst hid
      intro hop
      rw [hconn] at hop ⊢
      exact ho hop
    · exact ho.apart (Function.update_of_ne hid _ _) (fun hc => hc) rfl rfl fun hf => hf

end TcpClient

end OulaServer
